import Linkage.ArtifactsReport
import Linkage.Json.Printer
import Linkage.Proofs.Ordering
import Linkage.Proofs.Ownership
import Mathlib.Data.List.Forall2
import Mathlib.Data.List.Nodup
import Mathlib.Data.List.Perm.Basic

/-!
# What the order of a classpath shows

An artifact owns what it is the first to define, so the order of a classpath matters only among
artifacts that define a common symbol. As long as these keep their order, the artifacts report stays
the same: `ofIndex_of_reordered`. Its entries stand in the order by which `get?` looks for them.
-/

namespace Linkage

variable {definitions reordered before : List Definition} {definition : Definition}
  {symbol : Symbol} {index : Index}

def Overlap (a b : Definition) : Prop := ∃ symbol, symbol ∈ a.2 ∧ symbol ∈ b.2

structure KeepsOverlaps (definitions reordered : List Definition) : Prop where
  perm : reordered.Perm definitions
  order : definitions.Pairwise fun a b => Overlap a b → [a, b].Sublist reordered

theorem not_both_sublist {α : Type} {list : List α} {a b : α} (distinct : list.Nodup)
    (first : [a, b].Sublist list) : ¬ [b, a].Sublist list := by
  intro second
  induction list with
  | nil => cases first
  | cons c list ih =>
    obtain ⟨new, distinct⟩ := List.nodup_cons.mp distinct
    cases first with
    | cons _ first =>
      cases second with
      | cons _ second => exact ih distinct first second
      | cons_cons _ second => exact new (first.subset (by simp))
    | cons_cons _ first =>
      cases second with
      | cons _ second => exact new (second.subset (by simp))
      | cons_cons _ second => exact new (first.subset (by simp))

theorem KeepsOverlaps.filter_eq (keeps : KeepsOverlaps definitions reordered)
    (distinct : definitions.Nodup) (symbol : Symbol) :
    reordered.filter (fun definition => definition.2.contains symbol) =
      definitions.filter fun definition => definition.2.contains symbol := by
  have distinct' : reordered.Nodup := keeps.perm.nodup_iff.mpr distinct
  have after : (reordered.filter fun definition => definition.2.contains symbol).Pairwise
      fun a b => [a, b].Sublist reordered :=
    List.pairwise_iff_forall_sublist.mpr fun paired => paired.trans List.filter_sublist
  have before : (definitions.filter fun definition => definition.2.contains symbol).Pairwise
      fun a b => [a, b].Sublist reordered := by
    refine List.pairwise_iff_forall_sublist.mpr fun {a b} paired => ?_
    have defines : ∀ c ∈ [a, b], symbol ∈ c.2 := fun c listed =>
      SymbolSet.contains_eq_true_iff.mp (List.mem_filter.mp (paired.subset listed)).2
    exact List.pairwise_iff_forall_sublist.mp keeps.order (paired.trans List.filter_sublist)
      ⟨symbol, defines a (by simp), defines b (by simp)⟩
  refine List.Perm.eq_of_pairwise ?_ after before (keeps.perm.filter _)
  exact fun a b _ _ first second => absurd second (not_both_sublist distinct' first)

theorem KeepsOverlaps.firstDefiner?_eq (keeps : KeepsOverlaps definitions reordered)
    (distinct : definitions.Nodup) : firstDefiner? reordered = firstDefiner? definitions := by
  funext symbol
  rw [firstDefiner?, firstDefiner?, ← List.head?_filter, ← List.head?_filter,
    keeps.filter_eq distinct]

/-! ## Artifacts by what they are the first to define -/

section FirstDefiners

variable (first? : Symbol → Option Definition)

def artifactUnder (definition : Definition) : Artifact where
  identity := definition.1.identity
  declaration := definition.1.declaration
  parents := definition.1.parents
  symbols := definition.2.filter fun symbol => first? symbol = some definition

def contestedUnder (definition : Definition) : List Ambiguity :=
  definition.2.toList.filterMap fun symbol =>
    ((first? symbol).filter (· ≠ definition)).map fun owner =>
      { symbol, owner := owner.1.identity.canonical,
        claimant := definition.1.identity.canonical }

end FirstDefiners

theorem firstDefiner?_before {after : List Definition}
    (distinct : (before ++ definition :: after).Nodup) (defines : symbol ∈ definition.2) :
    firstDefiner? before symbol =
      (firstDefiner? (before ++ definition :: after) symbol).filter (· ≠ definition) := by
  have here : firstDefiner? (definition :: after) symbol = some definition :=
    List.find?_cons_of_pos (SymbolSet.contains_eq_true_iff.mpr defines)
  rw [firstDefiner?, firstDefiner?, List.find?_append, ← firstDefiner?, ← firstDefiner?, here]
  cases earlier : firstDefiner? before symbol with
  | none => simp [Option.filter_some]
  | some owner =>
    have listed : owner ∈ before := (firstDefiner?_defines earlier).1
    have other : owner ≠ definition := by
      rintro rfl
      exact List.disjoint_of_nodup_append distinct listed List.mem_cons_self
    simp [Option.filter_some, other]

theorem ownedArtifact_eq {after : List Definition}
    (distinct : (before ++ definition :: after).Nodup) :
    ownedArtifact before definition =
      artifactUnder (firstDefiner? (before ++ definition :: after)) definition := by
  unfold ownedArtifact artifactUnder
  congr 1
  apply SymbolSet.ext
  intro symbol
  rw [SymbolSet.mem_diff, SymbolSet.mem_filter, decide_eq_true_eq]
  refine and_congr_right fun defines => ?_
  have found : firstDefiner? (before ++ definition :: after) symbol ≠ none := by
    rw [ne_eq, firstDefiner?_isNone, mem_allDefined, not_not]
    exact ⟨definition, by simp, defines⟩
  rw [← firstDefiner?_isNone, firstDefiner?_before distinct defines, Option.filter_eq_none_iff]
  cases first : firstDefiner? (before ++ definition :: after) symbol with
  | none => exact absurd first found
  | some owner => simp

theorem contested_eq {after : List Definition}
    (distinct : (before ++ definition :: after).Nodup) :
    contested before definition =
      contestedUnder (firstDefiner? (before ++ definition :: after)) definition := by
  unfold contested contestedUnder
  apply List.filterMap_congr
  intro symbol listed
  rw [firstDefiner?_before distinct (SymbolSet.mem_def.mpr listed)]

theorem map_withEarlier {α : Type} {f : List Definition × Definition → α} {g : Definition → α}
    (same : ∀ before definition after, definitions = before ++ definition :: after →
      f (before, definition) = g definition) :
    (withEarlier definitions).map f = definitions.map g := by
  have definers : (withEarlier definitions).map Prod.snd = definitions := by
    rw [withEarlier, List.map_map]
    exact List.zipIdx_map_fst 0 definitions
  conv_rhs => rw [← definers, List.map_map]
  apply List.map_congr_left
  rintro ⟨before, definition⟩ listed
  obtain ⟨after, placed⟩ := mem_withEarlier.mp listed
  exact same before definition after placed

theorem Index.Describes.artifacts_eq (described : index.Describes definitions)
    (distinct : definitions.Nodup) :
    index.artifacts = definitions.map (artifactUnder (firstDefiner? definitions)) := by
  rw [described.artifacts]
  apply map_withEarlier
  rintro before definition after rfl
  exact ownedArtifact_eq distinct

theorem Index.Describes.ambiguities_eq (described : index.Describes definitions)
    (distinct : definitions.Nodup) :
    index.ambiguities = definitions.flatMap (contestedUnder (firstDefiner? definitions)) := by
  rw [described.ambiguities, List.flatMap_def, List.flatMap_def]
  congr 1
  apply map_withEarlier
  rintro before definition after rfl
  exact contested_eq distinct

/-! ## The report -/

def canonicalsOf (definitions : List Definition) : List String :=
  definitions.map fun definition => definition.1.identity.canonical

theorem nodup_of_canonicals (distinct : (canonicalsOf definitions).Nodup) :
    definitions.Nodup ∧ (identitiesOf definitions).Nodup := by
  have identities :
      canonicalsOf definitions = (identitiesOf definitions).map Identity.canonical := by
    rw [canonicalsOf, identitiesOf, List.map_map]
    rfl
  exact ⟨distinct.of_map, (identities ▸ distinct).of_map⟩

def Ambiguity.key (ambiguity : Ambiguity) : String ×ₗ String ×ₗ String :=
  toLex (ambiguity.symbol.name, toLex (ambiguity.owner, ambiguity.claimant))

theorem Ambiguity.inOrder_iff (a b : Ambiguity) : a.inOrder b = true ↔ a.key ≤ b.key := by
  obtain ⟨⟨name⟩, owner, claimant⟩ := a
  obtain ⟨⟨name'⟩, owner', claimant'⟩ := b
  by_cases same : name = name'
  · by_cases same' : owner = owner'
    · simp [-String.lt_iff_ltb, inOrder, key, Prod.Lex.toLex_le_toLex, same, same']
    · simp [-String.lt_iff_ltb, inOrder, key, Prod.Lex.toLex_le_toLex, same, same']
  · simp [-String.lt_iff_ltb, inOrder, key, Prod.Lex.toLex_le_toLex, same, Symbol.lt_iff]

theorem Ambiguity.key_inj {a b : Ambiguity} (same : a.key = b.key) : a = b := by
  obtain ⟨⟨_⟩, _, _⟩ := a
  obtain ⟨⟨_⟩, _, _⟩ := b
  simpa [key] using same

def Artifact.entry (artifact : Artifact) : ArtifactEntry where
  identity := artifact.canonical
  kind := artifact.identity.kind
  declaration := artifact.declaration
  symbols := artifact.symbols.toList

namespace ArtifactsReport

theorem ofIndex_artifacts (index : Index) : (ofIndex index).artifacts =
    (index.artifacts.map Artifact.entry).mergeSort fun a b => !decide (b.identity < a.identity) :=
  rfl

theorem ofIndex_eq {index' : Index} (artifacts : index'.artifacts.Perm index.artifacts)
    (distinct : (index.artifacts.map Artifact.canonical).Nodup)
    (ambiguities : index'.ambiguities.Perm index.ambiguities) : ofIndex index' = ofIndex index := by
  have entries : (ofIndex index').artifacts = (ofIndex index).artifacts := by
    have named : ((index'.artifacts.map Artifact.entry).map ArtifactEntry.identity).Nodup := by
      rw [List.map_map, (artifacts.map _).nodup_iff]
      exact distinct
    exact mergeSort_keyed_of_perm ArtifactEntry.identity (not_above_iff _) (artifacts.map _)
      fun _ listed _ listed' => List.inj_on_of_nodup_map named listed listed'
  have warnings : (ofIndex index').ambiguities = (ofIndex index).ambiguities :=
    mergeSort_keyed_of_perm Ambiguity.key Ambiguity.inOrder_iff ambiguities fun _ _ _ _ =>
      Ambiguity.key_inj
  exact congrArg₂ ArtifactsReport.mk entries warnings

theorem ofIndex_identities (index : Index) :
    ((ofIndex index).artifacts.map ArtifactEntry.identity).Perm
      (index.artifacts.map Artifact.canonical) := by
  have sorted := (List.mergeSort_perm (index.artifacts.map Artifact.entry) fun a b =>
    !decide (b.identity < a.identity)).map ArtifactEntry.identity
  rwa [List.map_map] at sorted

theorem ofIndex_ascending (distinct : (index.artifacts.map Artifact.canonical).Nodup) :
    ((ofIndex index).artifacts.map ArtifactEntry.identity).Pairwise (· < ·) := by
  apply mergeSort_ascending
  rw [List.map_map]
  exact distinct

/-! ## Looking for an entry -/

variable {canonical : String} {entries : List ArtifactEntry} {entry : ArtifactEntry}

theorem mem_of_lastUpTo? (found : lastUpTo? canonical entries = some entry) : entry ∈ entries := by
  fun_induction lastUpTo? canonical entries with
  | case1 entries longer inside behind ih => exact List.mem_of_mem_take (ih found)
  | case2 entries longer inside before ih => exact List.mem_of_mem_drop (ih found)
  | case3 entries short => exact List.mem_of_mem_head? found

/-- The half that is left out cannot have the entry that is looked for. -/
theorem lastUpTo?_of_mem (sorted : entries.Pairwise fun a b => a.identity < b.identity)
    (listed : entry ∈ entries) (called : entry.identity = canonical) :
    lastUpTo? canonical entries = some entry := by
  fun_induction lastUpTo? canonical entries with
  | case1 entries longer inside behind ih =>
    obtain ⟨place, bound, rfl⟩ := List.mem_iff_getElem.mp listed
    have early : place < entries.length / 2 := by
      by_contra late
      have above : entries[entries.length / 2].identity ≤ entries[place].identity := by
        rcases Nat.lt_or_eq_of_le (Nat.le_of_not_lt late) with later | same
        · exact (List.pairwise_iff_getElem.mp sorted _ _ inside bound later).le
        · simp [same]
      exact absurd behind (not_lt_of_ge (called ▸ above))
    refine ih (sorted.sublist (List.take_sublist _ _)) (List.mem_take_iff_getElem.mpr ?_)
    exact ⟨place, by omega, rfl⟩
  | case2 entries longer inside before ih =>
    obtain ⟨place, bound, rfl⟩ := List.mem_iff_getElem.mp listed
    have late : entries.length / 2 ≤ place := by
      by_contra early
      have below := List.pairwise_iff_getElem.mp sorted _ _ bound inside (Nat.lt_of_not_le early)
      exact before (called ▸ below)
    refine ih (sorted.sublist (List.drop_sublist _ _)) (List.mem_drop_iff_getElem.mpr ?_)
    exact ⟨place - entries.length / 2, by omega, by simp [Nat.add_sub_cancel' late]⟩
  | case3 entries short =>
    obtain ⟨place, bound, rfl⟩ := List.mem_iff_getElem.mp listed
    have first : place = 0 := by omega
    subst first
    rw [List.head?_eq_getElem?, List.getElem?_eq_getElem bound]

theorem get?_eq_some_iff {report : ArtifactsReport}
    (sorted : (report.artifacts.map ArtifactEntry.identity).Pairwise (· < ·)) :
    report.get? canonical = some entry ↔
      entry ∈ report.artifacts ∧ entry.identity = canonical := by
  rw [get?, Option.filter_eq_some_iff, decide_eq_true_eq]
  constructor
  · exact fun ⟨found, called⟩ => ⟨mem_of_lastUpTo? found, called⟩
  · exact fun ⟨listed, called⟩ =>
      ⟨lastUpTo?_of_mem (List.pairwise_map.mp sorted) listed called, called⟩

theorem get?_eq_none_iff {report : ArtifactsReport}
    (sorted : (report.artifacts.map ArtifactEntry.identity).Pairwise (· < ·)) :
    report.get? canonical = none ↔ canonical ∉ report.artifacts.map ArtifactEntry.identity := by
  rw [Option.eq_none_iff_forall_ne_some, List.mem_map, not_exists]
  exact forall_congr' fun entry => not_congr (get?_eq_some_iff sorted)

end ArtifactsReport

structure ArtifactEntry.Lists (definitions : List Definition) (entry : ArtifactEntry)
    (definition : Definition) : Prop where
  identity : entry.identity = definition.1.identity.canonical
  kind : entry.kind = definition.1.identity.kind
  declaration : entry.declaration = definition.1.declaration
  ascending : entry.symbols.Pairwise (· < ·)
  owned : ∀ symbol, symbol ∈ entry.symbols ↔ firstDefiner? definitions symbol = some definition

theorem entry_lists (definitions : List Definition) (definition : Definition) :
    (artifactUnder (firstDefiner? definitions) definition).entry.Lists definitions definition where
  identity := rfl
  kind := rfl
  declaration := rfl
  ascending := SymbolSet.ascending _
  owned symbol := by
    change symbol ∈ definition.2.filter _ ↔ _
    rw [SymbolSet.mem_filter, decide_eq_true_eq]
    exact and_iff_right_of_imp fun first => (firstDefiner?_defines first).2

open ArtifactsReport in
/-- As long as definitions with a common symbol keep their order, the artifacts report and its texts
do not depend on the order of the classpath. It has one entry for each definition, the entries
ascending by canonical identity, and finds each by it. -/
theorem ofIndex_of_reordered (distinct : (canonicalsOf definitions).Nodup)
    (keeps : KeepsOverlaps definitions reordered) :
    ∃ index index', Index.ofDefinitions definitions = .ok index ∧
      Index.ofDefinitions reordered = .ok index' ∧
      ofIndex index' = ofIndex index ∧
      Json.compact (ofIndex index').toData = Json.compact (ofIndex index).toData ∧
      Json.pretty (ofIndex index').toData = Json.pretty (ofIndex index).toData ∧
      ((ofIndex index).artifacts.map ArtifactEntry.identity).Pairwise (· < ·) ∧
      (∃ listed, listed.Perm definitions ∧
        List.Forall₂ (ArtifactEntry.Lists definitions) (ofIndex index).artifacts listed) ∧
      ∀ canonical,
        (∀ entry, (ofIndex index).get? canonical = some entry ↔
          entry ∈ (ofIndex index).artifacts ∧ entry.identity = canonical) ∧
        ((ofIndex index).get? canonical = none ↔ canonical ∉ canonicalsOf definitions) := by
  obtain ⟨once, apart⟩ := nodup_of_canonicals distinct
  have once' : reordered.Nodup := keeps.perm.nodup_iff.mpr once
  have apart' : (identitiesOf reordered).Nodup := (keeps.perm.map _).nodup_iff.mpr apart
  obtain ⟨index, built, described⟩ := Index.accepted_of_distinct apart
  obtain ⟨index', built', described'⟩ := Index.accepted_of_distinct apart'
  have artifacts := described.artifacts_eq once
  have named_eq : index.artifacts.map Artifact.canonical = canonicalsOf definitions := by
    rw [artifacts, List.map_map]
    rfl
  have named : (index.artifacts.map Artifact.canonical).Nodup := named_eq ▸ distinct
  have same : ofIndex index' = ofIndex index := by
    apply ofIndex_eq _ named
    · rw [described'.ambiguities_eq once', described.ambiguities_eq once,
        keeps.firstDefiner?_eq once]
      exact keeps.perm.flatMap_right _
    · rw [described'.artifacts_eq once', artifacts, keeps.firstDefiner?_eq once]
      exact keeps.perm.map _
  have sorted := ofIndex_ascending named
  refine ⟨index, index', built, built', same, by rw [same], by rw [same], sorted, ?_, ?_⟩
  · -- Sorting puts the definitions themselves into the order of the entries.
    have permuted : (ofIndex index).artifacts.Perm (definitions.map fun definition =>
        (artifactUnder (firstDefiner? definitions) definition).entry) := by
      rw [ofIndex_artifacts, artifacts, List.map_map]
      exact List.mergeSort_perm _ _
    have each : List.Forall₂ (ArtifactEntry.Lists definitions) (definitions.map fun definition =>
        (artifactUnder (firstDefiner? definitions) definition).entry) definitions := by
      rw [List.forall₂_map_left_iff, List.forall₂_same]
      exact fun definition _ => entry_lists definitions definition
    obtain ⟨listed, arranged, perm⟩ := List.perm_comp_forall₂ permuted each
    exact ⟨listed, perm, arranged⟩
  · intro canonical
    refine ⟨fun entry => get?_eq_some_iff sorted, ?_⟩
    rw [get?_eq_none_iff sorted, (ofIndex_identities index).mem_iff, named_eq]

/-! ## Two definers of a symbol, and a project that moves ahead of them -/

namespace Moving

def early : Definition :=
  (⟨.library "g" "b" "", ⟨"b.jar"⟩, .direct, []⟩, .ofList [⟨"B"⟩, ⟨"S"⟩])

def late : Definition :=
  (⟨.library "g" "a" "", ⟨"a.jar"⟩, .transitive, []⟩, .ofList [⟨"A"⟩, ⟨"S"⟩])

def free : Definition := (⟨.project ":c", ⟨"c"⟩, .direct, []⟩, .ofList [⟨"C"⟩])

theorem distinct : (canonicalsOf [early, late, free]).Nodup := by decide

theorem keepsOverlaps : KeepsOverlaps [early, late, free] [free, early, late] where
  perm := (List.perm_append_comm : ([free] ++ [early, late]).Perm ([early, late] ++ [free]))
  order := by
    have apart : ¬ Overlap early free ∧ ¬ Overlap late free := by
      simp [Overlap, early, late, free]
    simp [apart]

end Moving

open Moving in
theorem ofIndex_of_reordered_moving :
    ∃ index index', Index.ofDefinitions [early, late, free] = .ok index ∧
      Index.ofDefinitions [free, early, late] = .ok index' ∧
      ArtifactsReport.ofIndex index' = ArtifactsReport.ofIndex index ∧
      (ArtifactsReport.ofIndex index).get? "g:a" ≠ none ∧
      (ArtifactsReport.ofIndex index).get? "g:c" = none := by
  obtain ⟨index, index', built, built', same, -, -, -, -, finds⟩ :=
    ofIndex_of_reordered distinct keepsOverlaps
  refine ⟨index, index', built, built', same, ?_, ?_⟩
  · exact (finds "g:a").2.not.mpr (by decide)
  · exact (finds "g:c").2.mpr (by decide)

end Linkage
