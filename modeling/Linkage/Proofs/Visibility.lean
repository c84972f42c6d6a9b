import Linkage.Proofs.Judging
import Linkage.Proofs.Surface
import Mathlib.Data.List.Induction
import Mathlib.Data.List.Perm.Subperm
import Mathlib.Logic.Relation

/-!
# Visible types

`VisibleAmong` says which of the types that some classes define are visible. With names told apart and
at most 64 types nested in each other, a surface lists exactly those: `surface_lists_visible`.
-/

namespace Linkage

/-! ## Candidates and the classes they come from -/

variable {config : AbiConfig} {classes : ClassFile → Prop} {unit around : ClassFile}
  {candidates : Candidates} {candidate : Candidate} {units : List ClassFile}

theorem ofClass_eq_ok :
    Candidate.ofClass unit = .ok candidate ↔ ∃ generic fields methods,
      unit.signature.toList.mapM Signature.classNames = .ok generic ∧
      (unit.fields.filter Member.isDeclared).mapM Member.visibleField = .ok fields ∧
      (unit.methods.filter Member.isDeclaredMethod).mapM Member.visibleMethod = .ok methods ∧
      Candidate.assemble unit generic.flatten (fields ++ methods) = candidate := by
  unfold Candidate.ofClass
  simp only [bind_eq_ok, pure_eq_ok]
  constructor
  · rintro ⟨generic, signature, fields, read, methods, read', same⟩
    exact ⟨generic, fields, methods, signature, read, read', same⟩
  · rintro ⟨generic, fields, methods, signature, read, read', same⟩
    exact ⟨generic, signature, fields, read, methods, read', same⟩

theorem ofClass_symbol (read : Candidate.ofClass unit = .ok candidate) :
    candidate.type.symbol = unit.symbol := by
  obtain ⟨_, _, _, -, -, -, rfl⟩ := ofClass_eq_ok.mp read
  rfl

theorem ofClass_nesting (read : Candidate.ofClass unit = .ok candidate) :
    candidate.nesting = unit.selfEntry.map fun entry => ⟨entry.flags.isVisible, entry.outer⟩ := by
  obtain ⟨_, _, _, -, -, -, rfl⟩ := ofClass_eq_ok.mp read
  rfl

theorem add_eq_ok {next : Candidates} :
    candidates.add unit = .ok next ↔
      unit.definesType = true ∧ (∃ candidate, Candidate.ofClass unit = .ok candidate ∧
        ⟨candidates.byName.insert unit.thisClass candidate⟩ = next) ∨
      unit.definesType = false ∧ candidates = next := by
  unfold Candidates.add
  by_cases defines : unit.definesType = true
  · rw [if_pos defines]
    simp only [bind_eq_ok, pure_eq_ok, defines, true_and, reduceCtorEq, false_and, or_false]
  · rw [if_neg defines, pure_eq_ok]
    simp [defines]

theorem ofClasses_concat {next : Candidates} :
    Candidates.ofClasses (units ++ [unit]) = .ok next ↔
      ∃ candidates, Candidates.ofClasses units = .ok candidates ∧ candidates.add unit = .ok next := by
  unfold Candidates.ofClasses
  rw [List.foldlM_append, bind_eq_ok]
  simp only [List.foldlM_cons, List.foldlM_nil, bind_pure]

theorem ofClasses_lookup (read : Candidates.ofClasses units = .ok candidates) {name : String}
    (found : candidates.byName[name]? = some candidate) :
    ∃ unit ∈ units, unit.definesType = true ∧ unit.thisClass = name ∧
      Candidate.ofClass unit = .ok candidate := by
  induction units using List.reverseRec generalizing candidates with
  | nil =>
    cases read
    simp [Candidates.empty] at found
  | append_singleton units last ih =>
    obtain ⟨before, read, added⟩ := ofClasses_concat.mp read
    have earlier (found : before.byName[name]? = some candidate) :
        ∃ unit ∈ units ++ [last], unit.definesType = true ∧ unit.thisClass = name ∧
          Candidate.ofClass unit = .ok candidate := by
      obtain ⟨unit, listed, origin⟩ := ih read found
      exact ⟨unit, List.mem_append_left _ listed, origin⟩
    rcases add_eq_ok.mp added with ⟨defines, _, opened, rfl⟩ | ⟨-, rfl⟩
    · simp only [Std.HashMap.getElem?_insert] at found
      split at found
      · rename_i same
        cases found
        exact ⟨last, by simp, defines, eq_of_beq same, opened⟩
      · exact earlier found
    · exact earlier found

theorem lookup_ofClasses (read : Candidates.ofClasses units = .ok candidates) (listed : unit ∈ units)
    (defines : unit.definesType = true)
    (only : ∀ other ∈ units, other.definesType = true → other.thisClass = unit.thisClass →
      other = unit) :
    ∃ candidate, Candidate.ofClass unit = .ok candidate ∧
      candidates.byName[unit.thisClass]? = some candidate := by
  induction units using List.reverseRec generalizing candidates with
  | nil => cases listed
  | append_singleton units last ih =>
    obtain ⟨before, earlier, added⟩ := ofClasses_concat.mp read
    rcases add_eq_ok.mp added with ⟨defines', candidate, opened, rfl⟩ | ⟨passed, rfl⟩
    · by_cases same : last.thisClass = unit.thisClass
      · obtain rfl := only last (by simp) defines' same
        exact ⟨candidate, opened, by simp⟩
      · have other : unit ∈ units := by
          rcases List.mem_append.mp listed with early | late
          · exact early
          · exact absurd (by rw [List.mem_singleton.mp late]) same
        obtain ⟨candidate, opened, found⟩ :=
          ih earlier other fun other listed => only other (List.mem_append_left _ listed)
        refine ⟨candidate, opened, ?_⟩
        simpa [Std.HashMap.getElem?_insert, same] using found
    · have other : unit ∈ units := by
        rcases List.mem_append.mp listed with early | late
        · exact early
        · rw [List.mem_singleton.mp late, passed] at defines
          cases defines
      exact ih earlier other fun other listed => only other (List.mem_append_left _ listed)

/-- Whether no two types that some classes define have the same name, written with dots. -/
def DistinctTypes (classes : ClassFile → Prop) : Prop :=
  ∀ ⦃a b⦄, classes a → classes b → a.definesType = true → b.definesType = true →
    a.symbol = b.symbol → a = b

structure Candidates.StandFor (candidates : Candidates) (classes : ClassFile → Prop) : Prop where
  origin : ∀ {name candidate}, candidates.byName[name]? = some candidate →
    ∃ unit, classes unit ∧ unit.definesType = true ∧ unit.thisClass = name ∧
      Candidate.ofClass unit = .ok candidate
  present : ∀ {unit}, classes unit → unit.definesType = true →
    ∃ candidate, Candidate.ofClass unit = .ok candidate ∧
      candidates.byName[unit.thisClass]? = some candidate

theorem ofClasses_standFor (held : ∀ unit, unit ∈ units ↔ classes unit)
    (distinct : DistinctTypes classes) (read : Candidates.ofClasses units = .ok candidates) :
    candidates.StandFor classes where
  origin found := by
    obtain ⟨unit, listed, origin⟩ := ofClasses_lookup read found
    exact ⟨unit, (held unit).mp listed, origin⟩
  present {unit} belongs defines := by
    apply lookup_ofClasses read ((held unit).mpr belongs) defines
    intro other listed defines' same
    exact distinct ((held other).mp listed) belongs defines' defines (congrArg Symbol.ofInternal same)

/-! ## Visible types -/

/-- Whether a type lies in a package that is left out, or in a package below one. -/
def AbiConfig.LeavesOut (config : AbiConfig) (symbol : Symbol) : Prop :=
  ∃ outer ∈ config.excludePackages,
    symbol.package = outer ∨ ∃ rest, symbol.package = outer ++ "." ++ rest

theorem isWithin_iff {package : List Char} {outer : String} :
    AbiConfig.isWithin package outer.toList = true ↔
      String.ofList package = outer ∨ ∃ rest, String.ofList package = outer ++ "." ++ rest := by
  unfold AbiConfig.isWithin
  simp only [Bool.and_eq_true, List.isPrefixOf_iff_prefix, String.ext_iff, String.toList_ofList,
    String.toList_append]
  constructor
  · rintro ⟨⟨rest, rfl⟩, next⟩
    rw [List.drop_left] at next
    cases rest with
    | nil => simp
    | cons c rest =>
      rw [decide_eq_true_eq] at next
      exact .inr ⟨String.ofList rest, by simp [next]⟩
  · rintro (rfl | ⟨rest, rfl⟩)
    · simp
    · simp [List.append_assoc]

theorem excludes_iff {symbol : Symbol} :
    config.excludes symbol.name = true ↔ config.LeavesOut symbol := by
  unfold AbiConfig.excludes AbiConfig.LeavesOut Symbol.package
  cases Text.cutAtLast? '.' symbol.name.toList with
  | none => simp only [List.any_eq_true, isWithin_iff, String.ofList_nil]
  | some parts => simp only [List.any_eq_true, isWithin_iff]

/-- What the class that defines a type must say for the type to be visible, nesting aside. -/
structure ClassFile.Opens (unit : ClassFile) (config : AbiConfig) : Prop where
  definesType : unit.definesType = true
  isPublic : unit.flags.isPublic = true
  unmarked : unit.markedSynthetic = false
  unflagged : unit.flags.isSynthetic = false
  included : ¬ config.LeavesOut unit.symbol

/-- The classes among some others whose types are visible: those that are not nested in another type,
and those whose first nesting entry about themselves lets others in and names a visible type. -/
inductive VisibleAmong (classes : ClassFile → Prop) (config : AbiConfig) : ClassFile → Prop
  | outermost {unit : ClassFile} (belongs : classes unit) (opens : unit.Opens config)
      (alone : unit.selfEntry = none) : VisibleAmong classes config unit
  | nested {unit around : ClassFile} {entry : InnerClass} (belongs : classes unit)
      (opens : unit.Opens config) (own : unit.selfEntry = some entry)
      (letsIn : entry.flags.isPublic = true ∨ entry.flags.isProtected = true)
      (within : entry.outer = some around.thisClass)
      (visible : VisibleAmong classes config around) : VisibleAmong classes config unit

theorem VisibleAmong.belongs (visible : VisibleAmong classes config unit) : classes unit := by
  cases visible <;> assumption

theorem VisibleAmong.opens (visible : VisibleAmong classes config unit) : unit.Opens config := by
  cases visible <;> assumption

theorem isOpen_iff (defines : unit.definesType = true)
    (read : Candidate.ofClass unit = .ok candidate) :
    candidate.isOpen config = true ↔ unit.Opens config := by
  obtain ⟨_, _, _, -, -, -, rfl⟩ := ofClass_eq_ok.mp read
  have included : config.excludes unit.symbol.name = false ↔ ¬ config.LeavesOut unit.symbol := by
    rw [← excludes_iff, Bool.not_eq_true]
  simp only [Candidate.isOpen, Candidate.assemble, ClassFile.isSynthetic, Bool.and_eq_true,
    Bool.not_eq_true', Bool.or_eq_false_iff, included]
  constructor
  · rintro ⟨⟨isPublic, unmarked, unflagged⟩, included⟩
    exact ⟨defines, isPublic, unmarked, unflagged, included⟩
  · rintro ⟨-, isPublic, unmarked, unflagged, included⟩
    exact ⟨⟨isPublic, unmarked, unflagged⟩, included⟩

theorem isVisible_iff {flags : AccessFlags} :
    flags.isVisible = true ↔ flags.isPublic = true ∨ flags.isProtected = true := by
  rw [AccessFlags.isVisible, Bool.or_eq_true]

theorem nesting_within {outer : String} (read : Candidate.ofClass unit = .ok candidate) :
    candidate.nesting = some ⟨true, some outer⟩ ↔ ∃ entry, unit.selfEntry = some entry ∧
      (entry.flags.isPublic = true ∨ entry.flags.isProtected = true) ∧
      entry.outer = some outer := by
  rw [ofClass_nesting read, Option.map_eq_some_iff]
  simp only [Nesting.mk.injEq, isVisible_iff]

theorem visibleAt_among (stand : candidates.StandFor classes) {depth : Nat} {name : String}
    (visible : candidates.VisibleAt config depth name) :
    ∃ unit, VisibleAmong classes config unit ∧ unit.thisClass = name := by
  induction visible with
  | outermost found isOpen alone =>
    obtain ⟨unit, belongs, defines, rfl, read⟩ := stand.origin found
    rw [ofClass_nesting read, Option.map_eq_none_iff] at alone
    exact ⟨unit, .outermost belongs ((isOpen_iff defines read).mp isOpen) alone, rfl⟩
  | nested found isOpen within _ ih =>
    obtain ⟨unit, belongs, defines, rfl, read⟩ := stand.origin found
    obtain ⟨around, visible, rfl⟩ := ih
    obtain ⟨entry, own, letsIn, within⟩ := (nesting_within read).mp within
    exact ⟨unit, .nested belongs ((isOpen_iff defines read).mp isOpen) own letsIn within visible,
      rfl⟩

theorem visible_of_among (stand : candidates.StandFor classes)
    (visible : VisibleAmong classes config unit) :
    candidates.Visible config unit.thisClass := by
  induction visible with
  | outermost belongs opens alone =>
    obtain ⟨candidate, read, found⟩ := stand.present belongs opens.definesType
    have isOpen := (isOpen_iff opens.definesType read).mpr opens
    exact ⟨1, .outermost found isOpen (by rw [ofClass_nesting read, alone]; rfl)⟩
  | nested belongs opens own letsIn within _ ih =>
    obtain ⟨candidate, read, found⟩ := stand.present belongs opens.definesType
    have isOpen := (isOpen_iff opens.definesType read).mpr opens
    obtain ⟨depth, around⟩ := ih
    exact ⟨depth + 1, .nested found isOpen ((nesting_within read).mpr ⟨_, own, letsIn, within⟩)
      around⟩

/-! ## Chains of nested types -/

def ClassFile.NestsIn (unit around : ClassFile) : Prop :=
  ∃ entry, unit.selfEntry = some entry ∧ entry.outer = some around.thisClass

/-- Whether no more than 64 different types that some classes define nest in each other. -/
def Shallow (classes : ClassFile → Prop) : Prop :=
  ∀ chain : List ClassFile, (∀ unit ∈ chain, classes unit ∧ unit.definesType = true) →
    chain.Nodup → chain.IsChain ClassFile.NestsIn → chain.length ≤ 64

theorem visibleAt_chain (stand : candidates.StandFor classes) {depth : Nat} {name : String}
    (visible : candidates.VisibleAt config depth name) :
    ∃ chain : List ClassFile, chain.length = depth ∧ chain.Nodup ∧
      chain.IsChain ClassFile.NestsIn ∧ chain.head?.map ClassFile.thisClass = some name ∧
      ∀ unit ∈ chain, (classes unit ∧ unit.definesType = true) ∧
        ∃ levels ≤ depth, candidates.VisibleAt config levels unit.thisClass := by
  induction visible with
  | outermost found isOpen alone =>
    obtain ⟨unit, belongs, defines, rfl, read⟩ := stand.origin found
    refine ⟨[unit], rfl, by simp, .singleton unit, rfl, ?_⟩
    simpa using ⟨⟨belongs, defines⟩, 1, Nat.le_refl 1, .outermost found isOpen alone⟩
  | @nested _ _ _ depth found isOpen within around ih =>
    obtain ⟨unit, belongs, defines, rfl, read⟩ := stand.origin found
    obtain ⟨chain, length, different, linked, first, each⟩ := ih
    have visible := Candidates.VisibleAt.nested found isOpen within around
    obtain ⟨next, others, rfl⟩ : ∃ next others, chain = next :: others := by
      cases chain with
      | nil => cases first
      | cons next others => exact ⟨next, others, rfl⟩
    cases first
    obtain ⟨entry, own, -, within⟩ := (nesting_within read).mp within
    refine ⟨unit :: next :: others, by simp [length], List.nodup_cons.mpr ⟨?_, different⟩,
      List.isChain_cons_cons.mpr ⟨⟨entry, own, within⟩, linked⟩, rfl, ?_⟩
    · -- A type further out is visible at a smaller depth, and at one depth only.
      intro again
      obtain ⟨-, levels, bound, visible'⟩ := each unit again
      have := visible.unique visible'
      omega
    · rintro other (_ | ⟨_, member⟩)
      · exact ⟨⟨belongs, defines⟩, _, Nat.le_refl _, visible⟩
      · obtain ⟨given, levels, bound, visible'⟩ := each other member
        exact ⟨given, levels, by omega, visible'⟩

theorem Shallow.withinReach (shallow : Shallow classes) (stand : candidates.StandFor classes) :
    candidates.WithinReach config := by
  intro name depth visible
  obtain ⟨chain, rfl, different, linked, -, each⟩ := visibleAt_chain stand visible
  exact shallow chain (fun unit member => (each unit member).1) different linked

def Links (classes : ClassFile → Prop) (unit around : ClassFile) : Prop :=
  unit.NestsIn around ∧ classes around ∧ around.definesType = true

open Relation in
theorem VisibleAmong.not_cyclic (distinct : DistinctTypes classes)
    (visible : VisibleAmong classes config unit)
    (leads : ReflTransGen (Links classes) unit around) :
    ¬ TransGen (Links classes) around around := by
  induction visible with
  | @outermost unit _ _ alone =>
    have stops (next : ClassFile) : ¬ Links classes unit next := by
      rintro ⟨⟨entry, own, -⟩, -⟩
      simp [alone] at own
    intro round
    rcases leads.cases_head with rfl | ⟨next, link, -⟩
    · obtain ⟨next, link, -⟩ := TransGen.head'_iff.mp round
      exact stops next link
    · exact stops next link
  | @nested unit outer _ _ _ own _ within visible ih =>
    have only {next : ClassFile} (link : Links classes unit next) : next = outer := by
      obtain ⟨⟨entry, own', within'⟩, belongs, defines⟩ := link
      cases own.symm.trans own'
      have same := Option.some.inj (within'.symm.trans within)
      exact distinct belongs visible.belongs defines visible.opens.definesType
        (congrArg Symbol.ofInternal same)
    intro round
    rcases leads.cases_head with rfl | ⟨next, link, further⟩
    · obtain ⟨next, link, further⟩ := TransGen.head'_iff.mp round
      exact ih (only link ▸ further) round
    · exact ih (only link ▸ further) round

structure Surface.Lists (surface : Surface) (classes : ClassFile → Prop) (config : AbiConfig) :
    Prop where
  ascending : surface.types.Pairwise fun a b => a.symbol < b.symbol
  mem_types : ∀ type, type ∈ surface.types ↔ ∃ unit candidate,
    VisibleAmong classes config unit ∧ Candidate.ofClass unit = .ok candidate ∧
      candidate.type = type

theorem Surface.ext_ascending {a b : Surface}
    (ascending : a.types.Pairwise fun a b => a.symbol < b.symbol)
    (ascending' : b.types.Pairwise fun a b => a.symbol < b.symbol)
    (same : ∀ type, type ∈ a.types ↔ type ∈ b.types) : a = b := by
  have nodup {types : List VisibleType}
      (ascending : types.Pairwise fun a b => a.symbol < b.symbol) : types.Nodup := by
    refine ascending.imp ?_
    rintro type _ below rfl
    exact Symbol.lt_irrefl _ below
  have types : a.types = b.types := by
    apply ((List.perm_ext_iff_of_nodup (nodup ascending) (nodup ascending')).mpr same).eq_of_pairwise
      _ ascending ascending'
    intro x y _ _ below above
    exact absurd (Symbol.lt_trans below above) (Symbol.lt_irrefl _)
  cases a
  cases b
  cases types
  rfl

structure NamesTypes (order : List String) (classes : ClassFile → Prop) : Prop where
  once : order.Nodup
  mem : ∀ name, name ∈ order ↔ ∃ unit, classes unit ∧ unit.definesType = true ∧
    unit.thisClass = name

theorem surfaceInOrder_lists (distinct : DistinctTypes classes) (shallow : Shallow classes)
    (stand : candidates.StandFor classes) {order : List String} (names : NamesTypes order classes) :
    (candidates.surfaceInOrder config order).Lists classes config where
  ascending := by
    apply Candidates.surfaceInOrder_ascending (shallow.withinReach stand) names.once
    intro name name' candidate candidate' found found' same
    obtain ⟨unit, belongs, defines, rfl, read⟩ := stand.origin found
    obtain ⟨unit', belongs', defines', rfl, read'⟩ := stand.origin found'
    rw [ofClass_symbol read, ofClass_symbol read'] at same
    rw [distinct belongs belongs' defines defines' same]
  mem_types type := by
    rw [Candidates.mem_surfaceInOrder (shallow.withinReach stand)]
    constructor
    · rintro ⟨name, -, ⟨depth, visible⟩, candidate, found, rfl⟩
      obtain ⟨unit, among, rfl⟩ := visibleAt_among stand visible
      obtain ⟨candidate', read, found'⟩ := stand.present among.belongs among.opens.definesType
      cases found.symm.trans found'
      exact ⟨unit, candidate, among, read, rfl⟩
    · rintro ⟨unit, candidate, visible, read, rfl⟩
      have belongs := visible.belongs
      have defines := visible.opens.definesType
      obtain ⟨candidate', read', found⟩ := stand.present belongs defines
      cases read.symm.trans read'
      exact ⟨unit.thisClass, (names.mem _).mpr ⟨unit, belongs, defines, rfl⟩,
        visible_of_among stand visible, candidate, found, rfl⟩

theorem keys_nameTypes (stand : candidates.StandFor classes) :
    NamesTypes candidates.byName.keys classes where
  once := Std.HashMap.nodup_keys
  mem name := by
    rw [Std.HashMap.mem_keys, Std.HashMap.mem_iff_isSome_getElem?, Option.isSome_iff_exists]
    constructor
    · rintro ⟨candidate, found⟩
      obtain ⟨unit, belongs, defines, same, -⟩ := stand.origin found
      exact ⟨unit, belongs, defines, same⟩
    · rintro ⟨unit, belongs, defines, rfl⟩
      obtain ⟨candidate, -, found⟩ := stand.present belongs defines
      exact ⟨candidate, found⟩

theorem surface_lists (distinct : DistinctTypes classes) (shallow : Shallow classes)
    (stand : candidates.StandFor classes) :
    (candidates.surface config).Lists classes config :=
  surfaceInOrder_lists distinct shallow stand (keys_nameTypes stand)

theorem Surface.Lists.mem_symbols {surface : Surface} (lists : surface.Lists classes config)
    (wellDeclared : ∀ unit, classes unit → unit.definesType = true →
      ∃ candidate, Candidate.ofClass unit = .ok candidate) {symbol : Symbol} :
    symbol ∈ surface.types.map VisibleType.symbol ↔
      ∃ unit, VisibleAmong classes config unit ∧ unit.symbol = symbol := by
  rw [List.mem_map]
  constructor
  · rintro ⟨type, listed, rfl⟩
    obtain ⟨unit, candidate, visible, read, rfl⟩ := (lists.mem_types type).mp listed
    exact ⟨unit, visible, (ofClass_symbol read).symm⟩
  · rintro ⟨unit, visible, rfl⟩
    obtain ⟨candidate, read⟩ := wellDeclared unit visible.belongs visible.opens.definesType
    exact ⟨_, (lists.mem_types _).mpr ⟨unit, candidate, visible, read, rfl⟩, ofClass_symbol read⟩

theorem ofClasses_succeeds :
    (∃ candidates, Candidates.ofClasses units = .ok candidates) ↔
      ∀ unit ∈ units, unit.definesType = true → unit.WellDeclared := by
  have accepted (candidates : Candidates) (unit : ClassFile) :
      (∃ next, candidates.add unit = .ok next) ↔ (unit.definesType = true → unit.WellDeclared) :=
    add_succeeds
  exact foldlM_succeeds accepted Candidates.empty

theorem shallow_of_length (few : units.length ≤ 64) : Shallow (· ∈ units) := by
  intro chain listed different _
  have subset : chain ⊆ units := fun unit member => (listed unit member).1
  exact Nat.le_trans (List.subperm_of_subset different subset).length_le few

theorem surface_singleton (held : ∀ other, other ∈ units ↔ other = unit)
    (visible : VisibleAmong (· = unit) config unit)
    (read : Candidate.ofClass unit = .ok candidate)
    (opened : Candidates.ofClasses units = .ok candidates) :
    candidates.surface config = ⟨[candidate.type]⟩ := by
  have distinct : DistinctTypes (· = unit) := by
    rintro _ _ rfl rfl - - -
    rfl
  have shallow : Shallow (· = unit) := by
    have few : Shallow (· ∈ [unit]) := shallow_of_length (by simp)
    simpa only [List.mem_singleton] using few
  have lists : (candidates.surface config).Lists (· = unit) config :=
    surface_lists distinct shallow (ofClasses_standFor held distinct opened)
  apply Surface.ext_ascending lists.ascending (List.pairwise_singleton _ _)
  intro type
  rw [lists.mem_types, List.mem_singleton]
  constructor
  · rintro ⟨unit', candidate', visible', read', rfl⟩
    cases visible'.belongs
    cases read.symm.trans read'
    rfl
  · rintro rfl
    exact ⟨unit, candidate, visible, read, rfl⟩

/-! ### A type nested in another, and one nested in itself -/

namespace Nested

def classNamed (name : String) (entries : List InnerClass) : ClassFile where
  minor := 0
  major := 52
  pool := ⟨#[none]⟩
  flags := ⟨0x21⟩
  thisClass := name
  superClass := some "java/lang/Object"
  interfaces := []
  fields := []
  methods := []
  attributes := [.innerClasses entries]

def entry (inner outer : String) : InnerClass := ⟨inner, some outer, none, ⟨0x9⟩⟩

def outside : ClassFile := classNamed "O" []
def inside : ClassFile := classNamed "O$I" [entry "O$I" "O"]
def loop : ClassFile := classNamed "X" [entry "X" "X"]
def all : List ClassFile := [inside, loop, outside]

theorem definesType {unit : ClassFile} (listed : unit ∈ all) : unit.definesType = true := by
  revert unit
  decide

theorem wellDeclared {unit : ClassFile} (listed : unit ∈ all) : unit.WellDeclared := by
  have plain : unit.signature = none ∧ unit.fields = [] ∧ unit.methods = [] := by
    revert unit
    decide
  obtain ⟨signature, fields, methods⟩ := plain
  exact ⟨by simp [SignatureReads, signature], by simp [fields], by simp [methods]⟩

theorem distinct : DistinctTypes (· ∈ all) := by
  have symbols : (all.map ClassFile.symbol).Nodup := by decide +kernel
  intro a b listed listed' _ _ same
  exact List.inj_on_of_nodup_map symbols listed listed' same

theorem opens {unit : ClassFile} (listed : unit ∈ all) : unit.Opens {} := by
  have flags : unit.flags.isPublic = true ∧ unit.markedSynthetic = false ∧
      unit.flags.isSynthetic = false := by
    revert unit
    decide
  exact ⟨definesType listed, flags.1, flags.2.1, flags.2.2, by simp [AbiConfig.LeavesOut]⟩

theorem visible_inside : VisibleAmong (· ∈ all) {} inside := by
  have outermost : VisibleAmong (· ∈ all) {} outside :=
    .outermost (by simp [all]) (opens (by simp [all])) (by decide)
  have own : inside.selfEntry = some (entry "O$I" "O") := by decide
  exact .nested (by simp [all]) (opens (by simp [all])) own (.inl (by decide)) rfl outermost

theorem links_loop : Links (· ∈ all) loop loop :=
  ⟨⟨entry "X" "X", by decide, rfl⟩, by simp [all], definesType (by simp [all])⟩

theorem names : NamesTypes ["X", "O", "O$I"] (· ∈ all) where
  once := by decide
  mem name := by
    constructor
    · simp only [List.mem_cons, List.not_mem_nil, or_false]
      rintro (rfl | rfl | rfl)
      · exact ⟨loop, by simp [all], definesType (by simp [all]), rfl⟩
      · exact ⟨outside, by simp [all], definesType (by simp [all]), rfl⟩
      · exact ⟨inside, by simp [all], definesType (by simp [all]), rfl⟩
    · rintro ⟨unit, listed, -, rfl⟩
      revert unit
      decide

end Nested

open Relation in
/-- In whatever order types are judged, the surface of some classes lists those that are visible among
them, and so none on a cycle or on the way into one. -/
theorem surface_lists_visible (units : List ClassFile) (config : AbiConfig)
    (distinct : DistinctTypes (· ∈ units)) (shallow : Shallow (· ∈ units)) :
    ((∃ candidates, Candidates.ofClasses units = .ok candidates) ↔
      ∀ unit ∈ units, unit.definesType = true → unit.WellDeclared) ∧
    ∀ candidates, Candidates.ofClasses units = .ok candidates →
      (∀ order, NamesTypes order (· ∈ units) →
        candidates.surfaceInOrder config order = candidates.surface config) ∧
      ((candidates.surface config).types.Pairwise fun a b => a.symbol < b.symbol) ∧
      (∀ type, type ∈ (candidates.surface config).types ↔ ∃ unit candidate,
        VisibleAmong (· ∈ units) config unit ∧ Candidate.ofClass unit = .ok candidate ∧
          candidate.type = type) ∧
      (∀ symbol, symbol ∈ (candidates.surface config).types.map VisibleType.symbol ↔
        ∃ unit, VisibleAmong (· ∈ units) config unit ∧ unit.symbol = symbol) ∧
      ∀ unit ∈ units, unit.definesType = true → ∀ around,
        ReflTransGen (Links (· ∈ units)) unit around → TransGen (Links (· ∈ units)) around around →
        unit.symbol ∉ (candidates.surface config).types.map VisibleType.symbol := by
  refine ⟨ofClasses_succeeds, fun candidates read => ?_⟩
  have stand := ofClasses_standFor (fun _ => Iff.rfl) distinct read
  have lists : (candidates.surface config).Lists (· ∈ units) config :=
    surface_lists distinct shallow stand
  have declared (unit : ClassFile) (listed : unit ∈ units) (defines : unit.definesType = true) :
      ∃ candidate, Candidate.ofClass unit = .ok candidate :=
    ofClass_succeeds.mpr (ofClasses_succeeds.mp ⟨candidates, read⟩ unit listed defines)
  have symbols (symbol : Symbol) :
      symbol ∈ (candidates.surface config).types.map VisibleType.symbol ↔ _ :=
    lists.mem_symbols declared
  refine ⟨fun order names => ?_, lists.ascending, lists.mem_types, symbols, ?_⟩
  · have lists' : (candidates.surfaceInOrder config order).Lists (· ∈ units) config :=
      surfaceInOrder_lists distinct shallow stand names
    apply Surface.ext_ascending lists'.ascending lists.ascending
    intro type
    rw [lists'.mem_types, lists.mem_types]
  · intro unit listed defines around leads round member
    obtain ⟨unit', visible, same⟩ := (symbols _).mp member
    cases distinct visible.belongs listed visible.opens.definesType defines same
    exact visible.not_cyclic distinct leads round

theorem surface_lists_visible_nested :
    DistinctTypes (· ∈ Nested.all) ∧ Shallow (· ∈ Nested.all) ∧
    ∃ candidates, Candidates.ofClasses Nested.all = .ok candidates ∧
      NamesTypes ["X", "O", "O$I"] (· ∈ Nested.all) ∧
      (candidates.surfaceInOrder {} ["X", "O", "O$I"]) = candidates.surface {} ∧
      ⟨"O$I"⟩ ∈ (candidates.surface {}).types.map VisibleType.symbol ∧
      ⟨"X"⟩ ∉ (candidates.surface {}).types.map VisibleType.symbol := by
  have distinct := Nested.distinct
  have shallow : Shallow (· ∈ Nested.all) := shallow_of_length (by decide)
  obtain ⟨succeeds, listed⟩ := surface_lists_visible Nested.all {} distinct shallow
  obtain ⟨candidates, read⟩ := succeeds.mpr fun unit member _ => Nested.wellDeclared member
  obtain ⟨order, -, -, symbols, cyclic⟩ := listed candidates read
  refine ⟨distinct, shallow, candidates, read, Nested.names, order _ Nested.names, ?_, ?_⟩
  · exact (symbols _).mpr ⟨_, Nested.visible_inside, by decide +kernel⟩
  · have symbol : Nested.loop.symbol = ⟨"X"⟩ := Symbol.ofInternal_of_notMem (by decide)
    rw [← symbol]
    exact cyclic Nested.loop (by simp [Nested.all]) (Nested.definesType (by simp [Nested.all]))
      Nested.loop .refl (.single Nested.links_loop)

end Linkage
