import Linkage.Abi.Report
import Linkage.Proofs.ClasspathOrder
import Mathlib.Data.List.Nodup
import Mathlib.Data.Option.Basic

/-!
# Exposed dependencies

The symbols that a surface exposes are gathered under the artifacts that own them. An artifact is
listed with exactly those that belong to it, so a symbol with an owner is listed once, and one
without is not listed at all: `owning_attributes`.
-/

namespace Linkage

variable {index : Index} {symbols : SymbolSet} {symbol : Symbol} {identity : String}
  {exposed : ExposedDependency} {definitions : List Definition}

def Index.OwnedAs (index : Index) (identity : String) (symbol : Symbol) : Prop :=
  ∃ owner, index.ownerOf? symbol = some owner ∧ owner.canonical = identity

def Index.ownedEntries (index : Index) (symbols : SymbolSet) : List (String × Symbol) :=
  symbols.toList.filterMap fun symbol =>
    (index.ownerOf? symbol).map fun owner => (owner.canonical, symbol)

theorem Index.Describes.ownerOf?_eq_some_iff (described : index.Describes definitions)
    (distinct : (identitiesOf definitions).Nodup) {owner : Identity} :
    index.ownerOf? symbol = some owner ↔
      ∃ artifact ∈ index.artifacts, artifact.identity = owner ∧ symbol ∈ artifact.symbols := by
  rw [described.artifacts_eq distinct.of_map, Index.ownerOf?, described.owners,
    Option.map_eq_some_iff]
  constructor
  · rintro ⟨definition, first, rfl⟩
    obtain ⟨member, defines⟩ := firstDefiner?_defines first
    exact ⟨_, List.mem_map_of_mem member, rfl, SymbolSet.mem_filter.mpr ⟨defines, by simpa⟩⟩
  · rintro ⟨artifact, listed, rfl, owned⟩
    obtain ⟨definition, member, rfl⟩ := List.mem_map.mp listed
    exact ⟨definition, by simpa using (SymbolSet.mem_filter.mp owned).2, rfl⟩

/-! ## What is listed -/

theorem ownedEntries_under (identity : String) :
    (index.ownedEntries symbols).filterMap
        (fun entry => if entry.1 = identity then some entry.2 else none) =
      symbols.toList.filter fun symbol =>
        (index.ownerOf? symbol).map Identity.canonical = some identity := by
  rw [Index.ownedEntries, List.filterMap_filterMap, ← List.filterMap_eq_filter]
  apply List.filterMap_congr
  intro symbol _
  cases owner : index.ownerOf? symbol with
  | none => simp [owner, Option.guard]
  | some owner' =>
    by_cases same : owner'.canonical = identity <;> simp [owner, same, Option.guard]

theorem owning_eq (index : Index) (symbols : SymbolSet) : index.owning symbols =
    (((index.ownedEntries symbols).map Prod.fst).eraseDups.mergeSort fun a b =>
      !decide (b < a)).map fun owner => ⟨owner, symbols.toList.filter fun symbol =>
        (index.ownerOf? symbol).map Identity.canonical = some owner⟩ := by
  apply List.map_congr_left
  intro owner _
  exact congrArg (ExposedDependency.mk owner) (ownedEntries_under owner)

theorem mem_ownedEntries :
    (identity, symbol) ∈ index.ownedEntries symbols ↔
      symbol ∈ symbols ∧ index.OwnedAs identity symbol := by
  simp only [Index.ownedEntries, List.mem_filterMap, Option.map_eq_some_iff, Prod.mk.injEq,
    ← SymbolSet.mem_def]
  constructor
  · rintro ⟨_, listed, owner, owned, rfl, rfl⟩
    exact ⟨listed, owner, owned, rfl⟩
  · rintro ⟨listed, owner, owned, rfl⟩
    exact ⟨symbol, listed, owner, owned, rfl, rfl⟩

theorem mem_owning (listed : exposed ∈ index.owning symbols) :
    (∃ symbol, symbol ∈ exposed.symbols) ∧ ∀ symbol, symbol ∈ exposed.symbols ↔
      symbol ∈ symbols ∧ index.OwnedAs exposed.identity symbol := by
  rw [owning_eq] at listed
  obtain ⟨identity, owns, rfl⟩ := List.mem_map.mp listed
  have symbols_iff (symbol : Symbol) : symbol ∈ (symbols.toList.filter fun symbol =>
      (index.ownerOf? symbol).map Identity.canonical = some identity) ↔
      symbol ∈ symbols ∧ index.OwnedAs identity symbol := by
    rw [List.mem_filter, decide_eq_true_eq, Option.map_eq_some_iff, ← SymbolSet.mem_def]
    rfl
  refine ⟨?_, symbols_iff⟩
  rw [List.mem_mergeSort, List.mem_eraseDups] at owns
  obtain ⟨⟨_, symbol⟩, member, rfl⟩ := List.mem_map.mp owns
  exact ⟨symbol, (symbols_iff symbol).mpr (mem_ownedEntries.mp member)⟩

theorem exists_owning (listed : symbol ∈ symbols) (owned : index.OwnedAs identity symbol) :
    ∃ exposed ∈ index.owning symbols, exposed.identity = identity := by
  have entry := mem_ownedEntries.mpr ⟨listed, owned⟩
  refine ⟨_, List.mem_map.mpr ⟨identity, ?_, rfl⟩, rfl⟩
  rw [List.mem_mergeSort, List.mem_eraseDups]
  exact List.mem_map.mpr ⟨_, entry, rfl⟩

theorem listed_iff : (∃ exposed ∈ index.owning symbols, exposed.identity = identity ∧
      symbol ∈ exposed.symbols) ↔ symbol ∈ symbols ∧ index.OwnedAs identity symbol := by
  constructor
  · rintro ⟨exposed, listed, rfl, exposes⟩
    exact ((mem_owning listed).2 symbol).mp exposes
  · rintro ⟨listed, owned⟩
    obtain ⟨exposed, listed', rfl⟩ := exists_owning listed owned
    exact ⟨exposed, listed', rfl, ((mem_owning listed').2 symbol).mpr ⟨listed, owned⟩⟩

theorem nodup_eraseDups {α : Type} [BEq α] [LawfulBEq α] (list : List α) :
    list.eraseDups.Nodup := by
  match list with
  | [] => exact List.nodup_nil
  | first :: rest =>
    rw [List.eraseDups_cons, List.nodup_cons]
    exact ⟨by simp, nodup_eraseDups _⟩
termination_by list.length
decreasing_by exact Nat.lt_succ_of_le (List.length_filter_le _ _)

theorem owning_ascending (index : Index) (symbols : SymbolSet) :
    ((index.owning symbols).map ExposedDependency.identity).Pairwise (· < ·) := by
  have once : (((index.ownedEntries symbols).map Prod.fst).eraseDups.map id).Nodup := by
    rw [List.map_id]
    exact nodup_eraseDups _
  have sorted := mergeSort_ascending id once
  rw [List.map_id] at sorted
  rw [owning_eq, List.map_map]
  simpa [Function.comp_def] using sorted

theorem owning_symbols_ascending (listed : exposed ∈ index.owning symbols) :
    exposed.symbols.Pairwise (· < ·) := by
  rw [owning_eq] at listed
  obtain ⟨identity, -, rfl⟩ := List.mem_map.mp listed
  exact symbols.ascending.filter _

theorem owning_symbols_nodup (index : Index) (symbols : SymbolSet) :
    ((index.owning symbols).flatMap ExposedDependency.symbols).Nodup := by
  rw [List.nodup_flatMap]
  constructor
  · intro exposed listed
    refine (owning_symbols_ascending listed).imp ?_
    rintro a _ below rfl
    exact Symbol.lt_irrefl a below
  · -- A symbol has one owner only, and the identities of the entries differ.
    have apart := List.pairwise_map.mp (owning_ascending index symbols)
    refine apart.imp_of_mem fun {a b} listed listed' below symbol exposes exposes' => ?_
    obtain ⟨-, owner, owns, called⟩ := ((mem_owning listed).2 symbol).mp exposes
    obtain ⟨-, owner', owns', called'⟩ := ((mem_owning listed').2 symbol).mp exposes'
    cases owns.symm.trans owns'
    exact String.lt_irrefl _ (called' ▸ called ▸ below)

theorem Surface.mem_exposed_iff {surface : Surface} :
    symbol ∈ surface.exposed ↔ ∃ type ∈ surface.types, symbol ∈ type.exposed := by
  rw [Surface.exposed, SymbolSet.mem_ofList, List.mem_flatMap]
  rfl

/-- The symbols that the types of a surface expose are listed under the artifacts that own them,
each once: the artifacts by identity, each with one symbol at least, and its symbols in order. -/
theorem owning_attributes (surface : Surface)
    (built : Index.ofDefinitions definitions = .ok index) :
    ((index.owning surface.exposed).map ExposedDependency.identity).Pairwise (· < ·) ∧
    (∀ exposed ∈ index.owning surface.exposed,
      exposed.symbols ≠ [] ∧ exposed.symbols.Pairwise (· < ·)) ∧
    (∀ identity symbol, (∃ exposed ∈ index.owning surface.exposed,
        exposed.identity = identity ∧ symbol ∈ exposed.symbols) ↔
      (∃ type ∈ surface.types, symbol ∈ type.exposed) ∧
        ∃ artifact ∈ index.artifacts, artifact.canonical = identity ∧ symbol ∈ artifact.symbols ∧
          index.ownerOf? symbol = some artifact.identity) ∧
    ((index.owning surface.exposed).flatMap ExposedDependency.symbols).Nodup := by
  have owners := Index.ofDefinitions_describes definitions
  rw [built] at owners
  obtain ⟨described, distinct⟩ := owners
  refine ⟨owning_ascending _ _, fun exposed listed => ?_, fun identity symbol => ?_,
    owning_symbols_nodup _ _⟩
  · obtain ⟨symbol, exposes⟩ := (mem_owning listed).1
    exact ⟨List.ne_nil_of_mem exposes, owning_symbols_ascending listed⟩
  · rw [listed_iff, Surface.mem_exposed_iff]
    refine and_congr_right fun _ => ?_
    constructor
    · rintro ⟨owner, owns, rfl⟩
      obtain ⟨artifact, member, rfl, owned⟩ := (described.ownerOf?_eq_some_iff distinct).mp owns
      exact ⟨artifact, member, rfl, owned, owns⟩
    · rintro ⟨artifact, -, rfl, -, owns⟩
      exact ⟨artifact.identity, owns, rfl⟩

/-! ## Two types that expose a symbol with two definers -/

namespace Moving

def exposing (name : String) (exposed : List Symbol) : VisibleType where
  symbol := ⟨name⟩
  kind := .classType
  modifiers := []
  superclass := none
  interfaces := []
  members := []
  sourceFile := none
  major := 52
  minor := 0
  exposed := .ofList exposed

def surface : Surface := ⟨[exposing "V" [⟨"C"⟩, ⟨"S"⟩], exposing "W" [⟨"S"⟩, ⟨"X"⟩]]⟩

theorem named_apart : (identitiesOf [early, late, free]).Nodup := by decide

end Moving

open Moving in
theorem owning_attributes_moving :
    ∃ index, Index.ofDefinitions [early, late, free] = .ok index ∧
      (∀ identity, (∃ exposed ∈ index.owning surface.exposed, exposed.identity = identity ∧
        ⟨"S"⟩ ∈ exposed.symbols) ↔ identity = "g:b") ∧
      ∀ exposed ∈ index.owning surface.exposed, ⟨"X"⟩ ∉ exposed.symbols := by
  obtain ⟨index, built, described⟩ := Index.accepted_of_distinct named_apart
  have first : firstDefiner? [early, late, free] ⟨"S"⟩ = some early := by
    simp [firstDefiner?, early]
  have nowhere : firstDefiner? [early, late, free] ⟨"X"⟩ = none := by
    rw [firstDefiner?_isNone, mem_allDefined]
    simp [early, late, free]
  have owned : index.ownerOf? ⟨"S"⟩ = some early.1.identity := by
    rw [Index.ownerOf?, described.owners, first]
    rfl
  have unowned : index.ownerOf? ⟨"X"⟩ = none := by
    rw [Index.ownerOf?, described.owners, nowhere]
    rfl
  obtain ⟨-, -, listed_iff, -⟩ := owning_attributes surface built
  refine ⟨index, built, fun identity => ?_, fun exposed listed exposes => ?_⟩
  · rw [listed_iff]
    constructor
    · rintro ⟨-, artifact, -, rfl, -, owns⟩
      rw [Artifact.canonical, ← Option.some.inj (owned.symm.trans owns)]
      rfl
    · rintro rfl
      obtain ⟨artifact, member, called, owns⟩ :=
        (described.ownerOf?_eq_some_iff named_apart).mp owned
      refine ⟨by simp [surface, exposing], artifact, member, ?_, owns, called ▸ owned⟩
      rw [Artifact.canonical, called]
      rfl
  · obtain ⟨-, artifact, -, -, -, owns⟩ := (listed_iff _ _).mp ⟨exposed, listed, rfl, exposes⟩
    cases unowned.symm.trans owns

end Linkage
