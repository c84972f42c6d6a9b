import Linkage.Misuse.Basic
import Mathlib.Data.List.Perm.Basic

/-!
# Which dependencies are misused

Whether an artifact is listed as misused depends on how it stands alone, and that on the symbols it
owns and the symbols that are used.
-/

namespace Linkage

variable {config : MisuseConfig} {used : SymbolSet} {artifact : Artifact} {index : Index}
  {graph : DependencyGraph}

theorem isEmpty_eq_false_iff {set : SymbolSet} :
    set.isEmpty = false ↔ ∃ symbol, symbol ∈ set := by
  rw [SymbolSet.isEmpty, List.isEmpty_eq_false_iff_exists_mem]
  rfl

theorem inter_isEmpty_iff {a b : SymbolSet} :
    (a ∩ b).toList.isEmpty = true ↔ ∀ symbol ∈ a, symbol ∉ b := by
  rw [List.isEmpty_iff, List.eq_nil_iff_forall_not_mem]
  simp only [← SymbolSet.mem_def, SymbolSet.mem_inter, not_and]

theorem standing_unusedDirect :
    artifact.standing config used = .unusedDirect ↔ artifact.declaration = .direct ∧
      (∃ symbol, symbol ∈ artifact.symbols) ∧ (∀ symbol ∈ artifact.symbols, symbol ∉ used) ∧
      config.allowsUnused artifact.canonical = false := by
  rw [← isEmpty_eq_false_iff, ← inter_isEmpty_iff, Artifact.standing]
  cases artifact.declaration with
  | direct =>
    cases artifact.symbols.isEmpty <;> cases (artifact.symbols ∩ used).toList.isEmpty <;>
      cases config.allowsUnused artifact.canonical <;> simp
  | transitive =>
    cases (artifact.symbols ∩ used).toList.isEmpty <;> simp

theorem standing_usedTransitive {symbols : List Symbol} :
    artifact.standing config used = .usedTransitive symbols ↔ artifact.declaration = .transitive ∧
      (artifact.symbols ∩ used).toList = symbols ∧ symbols ≠ [] := by
  unfold Artifact.standing
  generalize (artifact.symbols ∩ used).toList = shared
  cases artifact.declaration with
  | direct =>
    cases artifact.symbols.isEmpty <;> cases shared <;>
      cases config.allowsUnused artifact.canonical <;> simp
  | transitive =>
    cases shared with
    | nil => simp
    | cons first rest =>
      simp only [List.isEmpty_cons, Bool.false_eq_true, if_false, Standing.usedTransitive.injEq,
        true_and]
      exact ⟨fun same => ⟨same, same ▸ List.cons_ne_nil first rest⟩, And.left⟩

/-- Whether an artifact is one of which no use is seen, although one should be. -/
def Standing.Unseen (standing : Standing) : Prop :=
  standing = .unusedDirect ∨ standing = .allowedUnused ∨ standing = .unobservable

theorem not_unseen_of_used {symbol : Symbol} (owned : symbol ∈ artifact.symbols)
    (inUse : symbol ∈ used) : ¬ (artifact.standing config used).Unseen := by
  have owns : artifact.symbols.isEmpty = false := isEmpty_eq_false_iff.mpr ⟨symbol, owned⟩
  have shares : (artifact.symbols ∩ used).isEmpty = false :=
    isEmpty_eq_false_iff.mpr ⟨symbol, SymbolSet.mem_inter.mpr ⟨owned, inUse⟩⟩
  rw [SymbolSet.isEmpty] at shares
  unfold Artifact.standing
  cases artifact.declaration <;> simp [owns, shares, Standing.Unseen]

theorem mem_listed {standing : Standing} {artifacts : List Artifact} {text : String} :
    text ∈ Misuse.listed config used standing artifacts ↔
      ∃ artifact ∈ artifacts, artifact.standing config used = standing ∧
        artifact.canonical = text := by
  simp [Misuse.listed, Misuse.inCanonicalOrder, and_assoc]

theorem mem_usedTransitive {use : TransitiveUse} :
    use ∈ (Misuse.ofUse config index used graph).usedTransitive ↔
      ∃ artifact ∈ index.artifacts,
        Misuse.transitiveUse? config used graph artifact = some use := by
  simp [Misuse.ofUse]

theorem transitiveUse?_isSome :
    (∃ use, Misuse.transitiveUse? config used graph artifact = some use) ↔
      artifact.declaration = .transitive ∧ ∃ symbol ∈ artifact.symbols, symbol ∈ used := by
  have shared : (∃ symbol ∈ artifact.symbols, symbol ∈ used) ↔
      (artifact.symbols ∩ used).toList ≠ [] := by
    rw [ne_eq, ← List.isEmpty_iff, inter_isEmpty_iff]
    simp
  rw [shared]
  unfold Misuse.transitiveUse?
  constructor
  · rintro ⟨use, found⟩
    split at found
    case h_1 symbols standing =>
      obtain ⟨transitive, same, some⟩ := standing_usedTransitive.mp standing
      exact ⟨transitive, same ▸ some⟩
    case h_2 => cases found
  · rintro ⟨transitive, some⟩
    rw [standing_usedTransitive.mpr ⟨transitive, rfl, some⟩]
    exact ⟨_, rfl⟩

theorem transitiveUse?_eq_some {use : TransitiveUse}
    (found : Misuse.transitiveUse? config used graph artifact = some use) :
    use.identity = artifact.canonical ∧ use.symbols = (artifact.symbols ∩ used).toList := by
  unfold Misuse.transitiveUse? at found
  split at found
  case h_1 symbols standing =>
    cases found
    exact ⟨rfl, (standing_usedTransitive.mp standing).2.1.symm⟩
  case h_2 => cases found

end Linkage
