import Linkage.Proofs.Misuse
import Linkage.Proofs.Ordering
import Linkage.Proofs.Ownership
import Mathlib.Data.List.Nodup

/-!
# Every artifact in its list

A report on misuse has four lists, and an artifact is in the one list in which it belongs, or in
none. Each list holds the artifacts of the index that stand alike, so it is settled by how each
stands: `under_eq`. The whole account is `ofUse_classifies`.
-/

namespace Linkage

variable {config : MisuseConfig} {used : SymbolSet} {artifact : Artifact} {index : Index}
  {graph : DependencyGraph}

/-! ## Lists and standings -/

inductive Misuse.Heading
  | unusedDirect
  | usedTransitive
  | unobservable
  | allowedUnused
  deriving DecidableEq, Repr

namespace Misuse

def under (misuse : Misuse) : Heading → List String
  | .unusedDirect => misuse.unusedDirect
  | .usedTransitive => misuse.usedTransitive.map TransitiveUse.identity
  | .unobservable => misuse.unobservable
  | .allowedUnused => misuse.allowedUnused

end Misuse

def MisuseConfig.Excuses (config : MisuseConfig) (canonical : String) : Prop :=
  ∃ pattern ∈ config.allowUnused, covers pattern canonical = true

namespace Artifact

def InUse (artifact : Artifact) (used : SymbolSet) : Prop :=
  ∃ symbol ∈ artifact.symbols, symbol ∈ used

/-- Whether an artifact should be listed under a heading. A direct one that owns nothing is
unobservable, and a direct one that owns something but nothing that is used is unused, in both cases
unless it is excused. A transitive one is listed if something of it is used. -/
def BelongsUnder (artifact : Artifact) (config : MisuseConfig) (used : SymbolSet) :
    Misuse.Heading → Prop
  | .unobservable => artifact.declaration = .direct ∧ (∀ symbol, symbol ∉ artifact.symbols) ∧
      ¬ config.Excuses artifact.canonical
  | .allowedUnused => artifact.declaration = .direct ∧ (∃ symbol, symbol ∈ artifact.symbols) ∧
      ¬ artifact.InUse used ∧ config.Excuses artifact.canonical
  | .unusedDirect => artifact.declaration = .direct ∧ (∃ symbol, symbol ∈ artifact.symbols) ∧
      ¬ artifact.InUse used ∧ ¬ config.Excuses artifact.canonical
  | .usedTransitive => artifact.declaration = .transitive ∧ artifact.InUse used

end Artifact

def Standing.heading? : Standing → Option Misuse.Heading
  | .fine => none
  | .unusedDirect => some .unusedDirect
  | .usedTransitive _ => some .usedTransitive
  | .unobservable => some .unobservable
  | .allowedUnused => some .allowedUnused

theorem excuses_iff {canonical : String} :
    config.Excuses canonical ↔ config.allowsUnused canonical = true := by
  rw [MisuseConfig.allowsUnused, List.any_eq_true]
  rfl

theorem not_inUse_iff :
    ¬ artifact.InUse used ↔ (artifact.symbols ∩ used).toList.isEmpty = true := by
  rw [inter_isEmpty_iff, Artifact.InUse]
  simp

theorem belongsUnder_iff {heading : Misuse.Heading} :
    artifact.BelongsUnder config used heading ↔
      (artifact.standing config used).heading? = some heading := by
  have owns : (∃ symbol, symbol ∈ artifact.symbols) ↔ artifact.symbols.isEmpty = false :=
    isEmpty_eq_false_iff.symm
  have ownsNothing : (∀ symbol, symbol ∉ artifact.symbols) ↔ artifact.symbols.isEmpty = true := by
    rw [← not_iff_not, Bool.not_eq_true, ← owns]
    simp
  have inUse : artifact.InUse used ↔ ¬ (artifact.symbols ∩ used).toList.isEmpty = true := by
    rw [← not_inUse_iff, not_not]
  unfold Artifact.BelongsUnder Artifact.standing
  simp only [owns, ownsNothing, inUse, excuses_iff]
  cases artifact.declaration with
  | direct =>
    cases artifact.symbols.isEmpty <;> cases (artifact.symbols ∩ used).toList.isEmpty <;>
      cases config.allowsUnused artifact.canonical <;> cases heading <;> simp [Standing.heading?]
  | transitive =>
    cases (artifact.symbols ∩ used).toList.isEmpty <;> cases heading <;> simp [Standing.heading?]

theorem Artifact.BelongsUnder.unique {heading heading' : Misuse.Heading}
    (first : artifact.BelongsUnder config used heading)
    (second : artifact.BelongsUnder config used heading') : heading = heading' := by
  rw [belongsUnder_iff] at first second
  exact Option.some.inj (first.symm.trans second)

/-! ## What is listed -/

theorem listed_eq {standing : Standing} {heading : Misuse.Heading} {artifacts : List Artifact}
    (alike : ∀ standing', standing' = standing ↔ standing'.heading? = some heading) :
    Misuse.listed config used standing artifacts = Misuse.inCanonicalOrder ((artifacts.filter
      fun artifact => (artifact.standing config used).heading? = some heading).map
        Artifact.canonical) := by
  unfold Misuse.listed
  simp only [alike]

theorem map_transitiveUse? (graph : DependencyGraph) (artifacts : List Artifact) :
    (artifacts.filterMap (Misuse.transitiveUse? config used graph)).map TransitiveUse.identity =
      (artifacts.filter fun artifact =>
        (artifact.standing config used).heading? = some .usedTransitive).map
          Artifact.canonical := by
  induction artifacts with
  | nil => rfl
  | cons artifact artifacts ih =>
    cases standing : artifact.standing config used <;>
      simp [Misuse.transitiveUse?, standing, Standing.heading?, ih]

theorem under_eq (heading : Misuse.Heading) :
    (Misuse.ofUse config index used graph).under heading =
      Misuse.inCanonicalOrder ((index.artifacts.filter fun artifact =>
        (artifact.standing config used).heading? = some heading).map Artifact.canonical) := by
  cases heading with
  | unusedDirect => exact listed_eq fun standing => by cases standing <;> simp [Standing.heading?]
  | unobservable => exact listed_eq fun standing => by cases standing <;> simp [Standing.heading?]
  | allowedUnused => exact listed_eq fun standing => by cases standing <;> simp [Standing.heading?]
  | usedTransitive =>
    rw [← map_transitiveUse? graph]
    exact List.map_mergeSort fun _ _ _ _ => rfl

theorem mem_under {heading : Misuse.Heading} {text : String} :
    text ∈ (Misuse.ofUse config index used graph).under heading ↔
      ∃ artifact ∈ index.artifacts, artifact.BelongsUnder config used heading ∧
        artifact.canonical = text := by
  simp [under_eq, Misuse.inCanonicalOrder, belongsUnder_iff, and_assoc]

theorem under_ascending (distinct : (index.artifacts.map Artifact.canonical).Nodup)
    (heading : Misuse.Heading) :
    ((Misuse.ofUse config index used graph).under heading).Pairwise (· < ·) := by
  have once : (((index.artifacts.filter fun artifact =>
      (artifact.standing config used).heading? = some heading).map Artifact.canonical).map
        id).Nodup := by
    rw [List.map_id]
    exact distinct.sublist (List.filter_sublist.map _)
  have sorted := mergeSort_ascending id once
  rw [List.map_id] at sorted
  rw [under_eq]
  exact sorted

/-! ## What is said about a transitive dependency -/

/-- A use that is reported, as far as the artifact and the graph settle it. -/
structure TransitiveUse.TellsOf (use : TransitiveUse) (used : SymbolSet) (graph : DependencyGraph)
    (artifact : Artifact) : Prop where
  symbols : use.symbols = artifact.symbols.toList.filter fun symbol => symbol ∈ used
  symbols_of_used : use.symbols = used.toList.filter fun symbol => symbol ∈ artifact.symbols
  ascending : use.symbols.Pairwise (· < ·)
  via : use.via = (graph.via artifact.identity).map Identity.canonical
  path : use.path = ((graph.pathTo? artifact.identity).getD []).map Identity.canonical

theorem transitiveUse?_tells {use : TransitiveUse}
    (found : Misuse.transitiveUse? config used graph artifact = some use) :
    use.identity = artifact.canonical ∧ use.TellsOf used graph artifact := by
  obtain ⟨named, shared⟩ := transitiveUse?_eq_some found
  have walked : artifact.symbols ∩ used = artifact.symbols.filter fun symbol => symbol ∈ used := by
    apply SymbolSet.ext
    simp
  have walked' : artifact.symbols ∩ used = used.filter fun symbol => symbol ∈ artifact.symbols := by
    apply SymbolSet.ext
    simp [and_comm]
  refine ⟨named, shared.trans (congrArg _ walked), shared.trans (congrArg _ walked'),
    shared ▸ (artifact.symbols ∩ used).ascending, ?_, ?_⟩
  all_goals
    unfold Misuse.transitiveUse? at found
    split at found <;> cases found
    rfl

/-- Every artifact of an index is listed where it belongs and nowhere else, nothing else is listed,
the lists ascend, and a transitive dependency is reported with what it shares with the used symbols
and with what the graph says about it. -/
theorem ofUse_classifies (config : MisuseConfig) (used : SymbolSet) (graph : DependencyGraph)
    {index : Index} (distinct : (index.artifacts.map Artifact.canonical).Nodup) :
    (∀ artifact ∈ index.artifacts, ∀ heading,
      (artifact.canonical ∈ (Misuse.ofUse config index used graph).under heading ↔
        artifact.BelongsUnder config used heading) ∧
      ∀ heading', artifact.BelongsUnder config used heading →
        artifact.BelongsUnder config used heading' → heading = heading') ∧
    (∀ heading, ((Misuse.ofUse config index used graph).under heading).Pairwise (· < ·) ∧
      ∀ text ∈ (Misuse.ofUse config index used graph).under heading,
        ∃ artifact ∈ index.artifacts, artifact.canonical = text) ∧
    ∀ use ∈ (Misuse.ofUse config index used graph).usedTransitive,
      ∃ artifact ∈ index.artifacts, artifact.canonical = use.identity ∧
        use.TellsOf used graph artifact := by
  refine ⟨?_, ?_, ?_⟩
  · intro artifact member heading
    refine ⟨?_, fun heading' => Artifact.BelongsUnder.unique⟩
    rw [mem_under]
    constructor
    · rintro ⟨other, member', belongs, same⟩
      exact List.inj_on_of_nodup_map distinct member' member same ▸ belongs
    · exact fun belongs => ⟨artifact, member, belongs, rfl⟩
  · intro heading
    refine ⟨under_ascending distinct heading, fun text listed => ?_⟩
    obtain ⟨artifact, member, -, same⟩ := mem_under.mp listed
    exact ⟨artifact, member, same⟩
  · intro use listed
    obtain ⟨artifact, member, found⟩ := mem_usedTransitive.mp listed
    obtain ⟨named, tells⟩ := transitiveUse?_tells found
    exact ⟨artifact, member, named.symm, tells⟩

/-! ## A small classpath

The second of two libraries defines only what the first does, and a third comes with the first.
-/

namespace Shadowing

def early : Definition := (⟨.library "g" "a" "", ⟨"a.jar"⟩, .direct, []⟩, .ofList [⟨"A"⟩])

def late : Definition := (⟨.library "g" "b" "", ⟨"b.jar"⟩, .direct, []⟩, .ofList [⟨"A"⟩])

def behind : Definition :=
  (⟨.library "g" "t" "", ⟨"t.jar"⟩, .transitive, [early.1.identity]⟩, .ofList [⟨"T"⟩, ⟨"U"⟩])

theorem early_belongs :
    (ownedArtifact [] early).BelongsUnder {} (.ofList [⟨"T"⟩]) .unusedDirect := by
  simp [Artifact.BelongsUnder, Artifact.InUse, MisuseConfig.Excuses, ownedArtifact, early,
    mem_allDefined]

theorem late_belongs :
    (ownedArtifact [early] late).BelongsUnder {} (.ofList [⟨"T"⟩]) .unobservable := by
  simp [Artifact.BelongsUnder, MisuseConfig.Excuses, ownedArtifact, early, late, mem_allDefined]

theorem behind_belongs :
    (ownedArtifact [early, late] behind).BelongsUnder {} (.ofList [⟨"T"⟩]) .usedTransitive := by
  simp [Artifact.BelongsUnder, Artifact.InUse, ownedArtifact, early, late, behind, mem_allDefined]

end Shadowing

open Shadowing in
theorem ofUse_classifies_shadowing :
    ∃ index, Index.ofDefinitions [early, late, behind] = .ok index ∧
      (index.artifacts.map Artifact.canonical).Nodup ∧
      ∃ misuse, misuse = Misuse.ofUse {} index (.ofList [⟨"T"⟩])
          (.ofDependencies [early.1, late.1, behind.1]) ∧
        "g:a" ∈ misuse.under .unusedDirect ∧ "g:b" ∈ misuse.under .unobservable ∧
        "g:t" ∈ misuse.under .usedTransitive := by
  have built := Index.ofDefinitions_describes [early, late, behind]
  cases accepted : Index.ofDefinitions [early, late, behind] with
  | error failure =>
    rw [accepted] at built
    obtain ⟨repeated, first, -⟩ := built
    exact absurd (by decide) first.not_nodup
  | ok index =>
    rw [accepted] at built
    have artifacts : index.artifacts = [ownedArtifact [] early, ownedArtifact [early] late,
      ownedArtifact [early, late] behind] := built.1.artifacts
    have distinct : (index.artifacts.map Artifact.canonical).Nodup := by
      rw [artifacts]
      decide
    have listed := (ofUse_classifies {} (.ofList [⟨"T"⟩])
      (.ofDependencies [early.1, late.1, behind.1]) distinct).1
    refine ⟨index, rfl, distinct, _, rfl, ?_, ?_, ?_⟩
    · exact (listed (ownedArtifact [] early) (by simp [artifacts]) _).1.mpr early_belongs
    · exact (listed (ownedArtifact [early] late) (by simp [artifacts]) _).1.mpr late_belongs
    · exact (listed (ownedArtifact [early, late] behind) (by simp [artifacts]) _).1.mpr
        behind_belongs

end Linkage
