import Linkage.Classpath
import Linkage.Proofs.ClassUnits
import Linkage.Proofs.Ownership
import Mathlib.Data.List.Nodup

/-!
# Who owns what on a classpath

`FirstDefines` says which dependency of a classpath owns a symbol. `indexClasspath_computes` ties it
to the symbols of the artifacts in an index, and says when a classpath has an index at all.
-/

namespace Linkage

variable {disk : FileSystem} {limits : Limits} {path : Path} {classpath : List Dependency}
  {symbol : Symbol}

/-! ## Symbols of an artifact -/

/-- Whether an artifact defines a symbol on which something can depend. -/
def Defines (disk : FileSystem) (limits : Limits) (path : Path) (symbol : Symbol) : Prop :=
  DefinesType disk limits path symbol ∧ symbol.isSynthetic = false

theorem mem_foldl_defined {classes : List ClassFile} {start : List Symbol} :
    symbol ∈ classes.foldl (fun symbols unit =>
        if unit.definesType then unit.symbol :: symbols else symbols) start ↔
      symbol ∈ start ∨ ∃ unit ∈ classes, unit.definesType = true ∧ unit.symbol = symbol := by
  induction classes generalizing start with
  | nil => simp
  | cons unit classes ih =>
    rw [List.foldl_cons, ih, List.exists_mem_cons_iff, ← or_assoc, mem_consIf]

theorem definedSymbols_computes :
    (definedSymbols disk limits path).Computes (Readable disk limits path)
      fun defined => ∀ symbol, symbol ∈ defined ↔ Defines disk limits path symbol := by
  have fold : (foldClasses disk limits path
      (fun symbols unit => .ok (if unit.definesType then unit.symbol :: symbols else symbols))
      []).Computes (Readable disk limits path ∧ ∀ unit, HoldsClass disk limits path unit → True) _ :=
    foldClasses_computes (by simp) []
  refine (fold.map (f := fun defined =>
    (SymbolSet.ofList defined).filter fun symbol => !symbol.isSynthetic)).mono (by simp) ?_
  rintro _ ⟨defined, ⟨classes, held, folded⟩, rfl⟩ symbol
  have listed : _ = defined := Except.ok.inj ((List.foldlM_pure ..).symm.trans folded)
  rw [SymbolSet.mem_filter, SymbolSet.mem_ofList, ← listed, mem_foldl_defined, Bool.not_eq_true']
  simp only [List.not_mem_nil, false_or, held]
  rfl

/-! ## The index -/

def FirstDefines (disk : FileSystem) (limits : Limits) (classpath : List Dependency)
    (dependency : Dependency) (symbol : Symbol) : Prop :=
  ∃ before after, classpath = before ++ dependency :: after ∧
    Defines disk limits dependency.file symbol ∧
    ∀ earlier ∈ before, ¬ Defines disk limits earlier.file symbol

structure DefinitionsOf (disk : FileSystem) (limits : Limits) (classpath : List Dependency)
    (definitions : List Definition) : Prop where
  dependencies : definitions.map Prod.fst = classpath
  symbols : ∀ definition ∈ definitions, ∀ symbol,
    symbol ∈ definition.2 ↔ Defines disk limits definition.1.file symbol

structure StandsFor (disk : FileSystem) (limits : Limits) (classpath : List Dependency)
    (artifact : Artifact) (dependency : Dependency) : Prop where
  identity : artifact.identity = dependency.identity
  declaration : artifact.declaration = dependency.declaration
  symbols : ∀ symbol, symbol ∈ artifact.symbols ↔
    FirstDefines disk limits classpath dependency symbol

theorem definitionOf_computes (dependency : Dependency) :
    (definitionOf disk limits dependency).Computes (Readable disk limits dependency.file)
      fun definition => definition.1 = dependency ∧
        ∀ symbol, symbol ∈ definition.2 ↔ Defines disk limits definition.1.file symbol := by
  have define : (definedSymbols disk limits dependency.file).Computes _ _ :=
    definedSymbols_computes
  refine (define.mapNoted (fun defined => (dependency, defined)) fun defined =>
    .artifactIndexed dependency.identity.canonical defined.size).mono Iff.rfl ?_
  rintro _ ⟨defined, given, rfl⟩
  exact ⟨rfl, given⟩

theorem definitions_computes :
    (classpath.mapM (definitionOf disk limits)).Computes
      (∀ dependency ∈ classpath, Readable disk limits dependency.file)
      (DefinitionsOf disk limits classpath) := by
  refine (Run.Computes.mapM definitionOf_computes classpath).mono Iff.rfl ?_
  intro definitions given
  induction given with
  | nil => exact ⟨rfl, nofun⟩
  | @cons dependency definition classpath definitions first _ ih =>
    refine ⟨?_, ?_⟩
    · rw [List.map_cons, first.1, ih.dependencies]
    · exact List.forall_mem_cons.mpr ⟨first.2, ih.symbols⟩

theorem front_unique {α : Type} {list before before' after after' : List α} {item : α}
    (distinct : list.Nodup) (split : list = before ++ item :: after)
    (split' : list = before' ++ item :: after') : before = before' := by
  have fresh := (List.nodup_cons.mp (List.nodup_middle.mp (split ▸ distinct))).1
  rw [List.mem_append, not_or] at fresh
  exact ((List.append_cons_inj_of_notMem fresh.1 fresh.2).mp (split.symm.trans split')).1

variable {definitions : List Definition} {index : Index}

theorem DefinitionsOf.identities (given : DefinitionsOf disk limits classpath definitions) :
    identitiesOf definitions = classpath.map Dependency.identity := by
  rw [← given.dependencies, List.map_map]
  rfl

theorem DefinitionsOf.standsFor (given : DefinitionsOf disk limits classpath definitions)
    (distinct : (classpath.map Dependency.identity).Nodup) {before : List Definition}
    {definition : Definition} (member : (before, definition) ∈ withEarlier definitions) :
    StandsFor disk limits classpath (ownedArtifact before definition) definition.1 := by
  obtain ⟨after, split⟩ := mem_withEarlier.mp member
  have here : classpath = before.map Prod.fst ++ definition.1 :: after.map Prod.fst := by
    rw [← given.dependencies, split, List.map_append, List.map_cons]
  refine ⟨rfl, rfl, fun symbol => ?_⟩
  have own : definition ∈ definitions := by simp [split]
  have earlier : ∀ other ∈ before, other ∈ definitions := fun other listed => by simp [split, listed]
  change symbol ∈ definition.2 \ allDefined before ↔ _
  rw [SymbolSet.mem_diff, mem_allDefined, given.symbols definition own]
  constructor
  · rintro ⟨defines, fresh⟩
    refine ⟨_, _, here, defines, ?_⟩
    rintro _ mapped defines'
    obtain ⟨other, listed, rfl⟩ := List.mem_map.mp mapped
    exact fresh ⟨other, listed, (given.symbols other (earlier other listed) symbol).mpr defines'⟩
  · rintro ⟨front, back, split', defines, fresh⟩
    refine ⟨defines, ?_⟩
    rintro ⟨other, listed, defines'⟩
    have same := front_unique (List.Nodup.of_map _ distinct) split' here
    apply fresh other.1 (same ▸ List.mem_map_of_mem listed)
    exact (given.symbols other (earlier other listed) symbol).mp defines'

theorem DefinitionsOf.firstDefines (given : DefinitionsOf disk limits classpath definitions)
    {dependency : Dependency} :
    (∃ definition, firstDefiner? definitions symbol = some definition ∧ definition.1 = dependency) ↔
      FirstDefines disk limits classpath dependency symbol := by
  have defines {definition : Definition} (listed : definition ∈ definitions) :
      definition.2.contains symbol = true ↔ Defines disk limits definition.1.file symbol :=
    SymbolSet.contains_eq_true_iff.trans (given.symbols definition listed symbol)
  unfold firstDefiner? FirstDefines
  simp only [List.find?_eq_some_iff_append]
  constructor
  · rintro ⟨definition, ⟨first, before, after, split, none⟩, rfl⟩
    rw [split] at defines
    refine ⟨before.map Prod.fst, after.map Prod.fst, ?_, (defines (by simp)).mp first, ?_⟩
    · rw [← given.dependencies, split, List.map_append, List.map_cons]
    · intro _ mapped defines'
      obtain ⟨earlier, listed, rfl⟩ := List.mem_map.mp mapped
      have unseen := none earlier listed
      rw [(defines (List.mem_append_left _ listed)).mpr defines'] at unseen
      cases unseen
  · rintro ⟨front, back, split, first, none⟩
    rw [← given.dependencies] at split
    obtain ⟨before, rest, together, rfl, others⟩ := List.map_eq_append_iff.mp split
    obtain ⟨definition, after, rfl, rfl, rfl⟩ := List.map_eq_cons_iff.mp others
    rw [together] at defines
    refine ⟨definition, ⟨(defines (by simp)).mpr first, before, after, together, ?_⟩, rfl⟩
    intro earlier listed
    have undefined := none earlier.1 (List.mem_map_of_mem listed)
    rw [← defines (List.mem_append_left _ listed), Bool.not_eq_true] at undefined
    rw [undefined]
    rfl

structure Index.Covers (index : Index) (disk : FileSystem) (limits : Limits)
    (classpath : List Dependency) : Prop where
  sound : ∀ artifact ∈ index.artifacts, ∃ dependency ∈ classpath,
    StandsFor disk limits classpath artifact dependency
  complete : ∀ dependency ∈ classpath, ∃ artifact ∈ index.artifacts,
    StandsFor disk limits classpath artifact dependency
  owners : ∀ symbol identity, index.ownerOf? symbol = some identity ↔
    ∃ dependency, FirstDefines disk limits classpath dependency symbol ∧
      dependency.identity = identity

theorem DefinitionsOf.covers (given : DefinitionsOf disk limits classpath definitions)
    (distinct : (classpath.map Dependency.identity).Nodup)
    (described : index.Describes definitions) : index.Covers disk limits classpath where
  sound artifact listed := by
    rw [described.artifacts] at listed
    obtain ⟨⟨before, definition⟩, member, rfl⟩ := List.mem_map.mp listed
    refine ⟨definition.1, ?_, given.standsFor distinct member⟩
    obtain ⟨after, rfl⟩ := mem_withEarlier.mp member
    rw [← given.dependencies]
    exact List.mem_map_of_mem (by simp)
  complete dependency listed := by
    rw [← given.dependencies] at listed
    obtain ⟨definition, member, rfl⟩ := List.mem_map.mp listed
    obtain ⟨before, after, split⟩ := List.append_of_mem member
    have member := mem_withEarlier.mpr ⟨after, split⟩
    rw [described.artifacts]
    exact ⟨_, List.mem_map_of_mem member, given.standsFor distinct member⟩
  owners symbol identity := by
    simp only [Index.ownerOf?, described.owners, Option.map_eq_some_iff, ← given.firstDefines]
    constructor
    · rintro ⟨definition, first, rfl⟩
      exact ⟨definition.1, ⟨definition, first, rfl⟩, rfl⟩
    · rintro ⟨_, ⟨definition, first, rfl⟩, rfl⟩
      exact ⟨definition, first, rfl⟩

theorem indexClasspath_computes :
    (indexClasspath disk limits classpath).Computes
      ((∀ dependency ∈ classpath, Readable disk limits dependency.file) ∧
        (classpath.map Dependency.identity).Nodup)
      fun index => index.Covers disk limits classpath := by
  have build (definitions : List Definition)
      (given : DefinitionsOf disk limits classpath definitions) :
      (liftM (Index.ofDefinitions definitions) : Run Index).Computes
        (classpath.map Dependency.identity).Nodup
        fun index => index.Covers disk limits classpath := by
    have outcome := Index.ofDefinitions_describes definitions
    rw [given.identities] at outcome
    refine .lift ?_ ?_
    · cases built : Index.ofDefinitions definitions with
      | error failure =>
        rw [built] at outcome
        obtain ⟨repeated, first, -⟩ := outcome
        refine ⟨nofun, fun distinct => absurd ?_ first.not_nodup⟩
        rwa [given.identities]
      | ok index =>
        rw [built] at outcome
        exact ⟨fun _ => outcome.2, fun _ => ⟨index, rfl⟩⟩
    · intro index built
      rw [built] at outcome
      exact given.covers outcome.2 outcome.1
  have finish (index : Index) : (pure index : Run Index).Computes True (index = ·) :=
    .pure trivial rfl
  have steps := definitions_computes.bind fun definitions given =>
    (build definitions given).bind fun index _ =>
      .after_notes index.ambiguities (fun ambiguity => .ambiguousOwner ambiguity.message)
        ((finish index).after_note
          (.indexBuilt index.size index.symbolCount index.ambiguities.length))
  refine steps.mono ?_ ?_
  · rw [and_true]
  · rintro _ ⟨definitions, -, index, covers, rfl⟩
    exact covers

end Linkage
