import Linkage.Abi.Report
import Linkage.Proofs.Comments
import Linkage.Proofs.Visibility

/-!
# Classes that differ in where they come from

A class file names its source file and the version it is written in. `ClassFile.withoutProvenance`
drops both, and every step from classes to a surface comes to the same with them or without them. So
classes that differ in nothing else have the same reduced form, unless what a name brings into it is no
comment: `reducedForm_of_provenance`.
-/

namespace Linkage

variable {config : AbiConfig} {unit unit' : ClassFile} {units units' : List ClassFile}
  {candidate : Candidate} {candidates candidates' : Candidates} {name : String}
  {order order' : List String}

theorem lastSome?_filter {α β : Type} {pick : α → Option β} {keep : α → Bool}
    (passed : ∀ item, keep item = false → pick item = none) (list : List α) :
    lastSome? pick (list.filter keep) = lastSome? pick list := by
  unfold lastSome?
  rw [← List.filter_reverse]
  induction list.reverse with
  | nil => rfl
  | cons item items ih =>
    rw [List.filter_cons, List.findSome?_cons]
    split
    · rw [List.findSome?_cons, ih]
    · rename_i dropped
      rw [passed item (Bool.eq_false_iff.mpr dropped), ih]

def Attribute.isSourceFile : Attribute → Bool
  | .sourceFile _ => true
  | _ => false

theorem Attribute.pick_eq_none {β : Type} {pick : Attribute → Option β}
    (other : ∀ name, pick (.sourceFile name) = none) (item : Attribute)
    (dropped : (!item.isSourceFile) = false) : pick item = none := by
  cases item with
  | sourceFile name => exact other name
  | _ => exact absurd dropped nofun

namespace ClassFile

def withoutProvenance (unit : ClassFile) : ClassFile :=
  { unit with
    minor := 0
    major := 0
    pool := ⟨#[]⟩
    attributes := unit.attributes.filter fun item => !item.isSourceFile }

theorem signature_withoutProvenance : unit.withoutProvenance.signature = unit.signature :=
  lastSome?_filter (Attribute.pick_eq_none fun _ => rfl) unit.attributes

theorem innerClasses_withoutProvenance : unit.withoutProvenance.innerClasses = unit.innerClasses :=
  congrArg (Option.getD · [])
    (lastSome?_filter (Attribute.pick_eq_none fun _ => rfl) unit.attributes)

theorem sourceFile_withoutProvenance : unit.withoutProvenance.sourceFile = none := by
  rw [sourceFile, Attribute.sourceFileOf, lastSome?, List.findSome?_eq_none_iff]
  intro item listed
  rw [List.mem_reverse, withoutProvenance, List.mem_filter] at listed
  cases item with
  | sourceFile name => cases listed.2
  | _ => rfl

theorem markedSynthetic_withoutProvenance :
    unit.withoutProvenance.markedSynthetic = unit.markedSynthetic := by
  rw [markedSynthetic, markedSynthetic, Attribute.marksSynthetic, Attribute.marksSynthetic,
    Bool.eq_iff_iff, List.contains_iff_mem, List.contains_iff_mem, withoutProvenance, List.mem_filter]
  exact and_iff_left rfl

end ClassFile

namespace Candidate

def withoutProvenance (candidate : Candidate) : Candidate :=
  { candidate with type := candidate.type.withoutProvenance }

theorem assemble_withoutProvenance {generic : List String}
    {members : List (VisibleMember × List String)} :
    assemble unit.withoutProvenance generic members =
      (assemble unit generic members).withoutProvenance := by
  have selfEntry : unit.withoutProvenance.selfEntry = unit.selfEntry := by
    rw [ClassFile.selfEntry, ClassFile.innerClasses_withoutProvenance]
    rfl
  have isSynthetic : unit.withoutProvenance.isSynthetic = unit.isSynthetic := by
    rw [ClassFile.isSynthetic, ClassFile.markedSynthetic_withoutProvenance]
    rfl
  simp only [assemble, selfEntry, isSynthetic, ClassFile.sourceFile_withoutProvenance]
  rfl

theorem ofClass_withoutProvenance :
    ofClass unit.withoutProvenance = (ofClass unit).map withoutProvenance := by
  have fields : unit.withoutProvenance.fields = unit.fields := rfl
  have methods : unit.withoutProvenance.methods = unit.methods := rfl
  unfold ofClass
  rw [ClassFile.signature_withoutProvenance, fields, methods]
  cases unit.signature.toList.mapM Signature.classNames with
  | error fault => rfl
  | ok generic =>
    cases (unit.fields.filter Member.isDeclared).mapM Member.visibleField with
    | error fault => rfl
    | ok fields =>
      cases (unit.methods.filter Member.isDeclaredMethod).mapM Member.visibleMethod with
      | error fault => rfl
      | ok methods => exact congrArg Except.ok assemble_withoutProvenance

end Candidate

/-- Whether two computations fail alike, or both come to an end with related values. -/
inductive EndsAlike {α : Type} (related : α → α → Prop) : Except Fault α → Except Fault α → Prop
  | error (fault : Fault) : EndsAlike related (.error fault) (.error fault)
  | ok {value value' : α} (alike : related value value') :
      EndsAlike related (.ok value) (.ok value')

namespace EndsAlike

variable {α : Type} {related : α → α → Prop} {result result' : Except Fault α} {value value' : α}

theorem error_iff (ends : EndsAlike related result result') (fault : Fault) :
    result = .error fault ↔ result' = .error fault := by
  cases ends <;> simp

theorem values (ends : EndsAlike related result result') (done : result = .ok value)
    (done' : result' = .ok value') : related value value' := by
  cases ends with
  | error fault => cases done
  | ok alike =>
    cases done
    cases done'
    exact alike

end EndsAlike

namespace Candidates

def Alike (candidates candidates' : Candidates) : Prop :=
  ∀ name : String, candidates.byName[name]?.map Candidate.withoutProvenance =
    candidates'.byName[name]?.map Candidate.withoutProvenance

theorem Alike.symm (alike : candidates.Alike candidates') : candidates'.Alike candidates :=
  fun name => (alike name).symm

theorem Alike.lookup (alike : candidates.Alike candidates') (name : String) :
    candidates.byName[name]? = none ∧ candidates'.byName[name]? = none ∨
      ∃ candidate candidate', candidates.byName[name]? = some candidate ∧
        candidates'.byName[name]? = some candidate' ∧
        candidate.withoutProvenance = candidate'.withoutProvenance := by
  have same := alike name
  cases found : candidates.byName[name]? with
  | none =>
    rw [found, Option.map_none] at same
    exact .inl ⟨rfl, Option.map_eq_none_iff.mp same.symm⟩
  | some candidate =>
    rw [found, Option.map_some] at same
    obtain ⟨candidate', found', same⟩ := Option.map_eq_some_iff.mp same.symm
    exact .inr ⟨candidate, candidate', rfl, found', same.symm⟩

theorem Alike.found (alike : candidates.Alike candidates')
    (found : candidates.byName[name]? = some candidate) :
    ∃ candidate', candidates'.byName[name]? = some candidate' ∧
      candidate'.withoutProvenance = candidate.withoutProvenance := by
  have same := alike name
  rw [found, Option.map_some] at same
  exact Option.map_eq_some_iff.mp same.symm

theorem add_alike (alike : candidates.Alike candidates')
    (same : unit.withoutProvenance = unit'.withoutProvenance) :
    EndsAlike Alike (candidates.add unit) (candidates'.add unit') := by
  have flags : unit.flags = unit'.flags := congrArg (·.flags) same
  have thisClass : unit.thisClass = unit'.thisClass := congrArg (·.thisClass) same
  have defines : unit.definesType = unit'.definesType := by
    rw [ClassFile.definesType, flags, thisClass, ClassFile.definesType]
  have opened := congrArg Candidate.ofClass same
  rw [Candidate.ofClass_withoutProvenance, Candidate.ofClass_withoutProvenance] at opened
  unfold add
  rw [defines, thisClass]
  split
  · revert opened
    cases Candidate.ofClass unit with
    | error fault =>
      cases Candidate.ofClass unit' with
      | error fault' =>
        rintro ⟨⟩
        exact .error fault
      | ok candidate' => intro opened; cases opened
    | ok candidate =>
      cases Candidate.ofClass unit' with
      | error fault' => intro opened; cases opened
      | ok candidate' =>
        intro opened
        refine .ok fun name => ?_
        simp only [Std.HashMap.getElem?_insert]
        split
        · exact congrArg some (Except.ok.inj opened)
        · exact alike name
  · exact .ok alike

theorem foldlM_add_alike
    (same : units.map ClassFile.withoutProvenance = units'.map ClassFile.withoutProvenance)
    (alike : candidates.Alike candidates') :
    EndsAlike Alike (units.foldlM add candidates) (units'.foldlM add candidates') := by
  induction units generalizing units' candidates candidates' with
  | nil =>
    cases List.map_eq_nil_iff.mp same.symm
    exact .ok alike
  | cons unit units ih =>
    obtain ⟨unit', rest, rfl, first, others⟩ := List.map_eq_cons_iff.mp same.symm
    have step := add_alike alike first.symm
    rw [List.foldlM_cons, List.foldlM_cons]
    generalize candidates.add unit = next, candidates'.add unit' = next' at step
    cases step with
    | error fault => exact .error fault
    | ok alike => exact ih others.symm alike

theorem ofClasses_alike
    (same : units.map ClassFile.withoutProvenance = units'.map ClassFile.withoutProvenance) :
    EndsAlike Alike (ofClasses units) (ofClasses units') :=
  foldlM_add_alike same fun _ => rfl

theorem judgeWith_congr {candidate' : Candidate}
    (same : candidate.withoutProvenance = candidate'.withoutProvenance)
    (judgeOuter : String → Verdicts → Bool × Verdicts) (known : Verdicts) :
    candidate.judgeWith config judgeOuter known = candidate'.judgeWith config judgeOuter known :=
  congrArg (fun candidate => candidate.judgeWith config judgeOuter known) same

theorem judge_alike (alike : candidates.Alike candidates') (levels : Nat) (name : String)
    (known : Verdicts) :
    candidates.judge config levels name known = candidates'.judge config levels name known := by
  induction levels generalizing name known with
  | zero =>
    rw [judge, judge]
    rcases alike.lookup name with ⟨missing, missing'⟩ | ⟨candidate, candidate', found, found', -⟩
    · rw [missing, missing']
    · rw [found, found']
      cases known[name]? <;> rfl
  | succ levels ih =>
    rw [judge, judge]
    rcases alike.lookup name with ⟨missing, missing'⟩ | ⟨candidate, candidate', found, found', same⟩
    · rw [missing, missing']
      cases known[name]? <;> rfl
    · have outward : candidates.judge config levels = candidates'.judge config levels :=
        funext fun outer => funext fun known => ih outer known
      rw [found, found']
      cases known[name]? with
      | some verdict => rfl
      | none => simp only [outward, judgeWith_congr same]

theorem visibleNames_alike (alike : candidates.Alike candidates') (known : Verdicts) :
    candidates.visibleNames config order known = candidates'.visibleNames config order known := by
  induction order generalizing known with
  | nil => rfl
  | cons name names ih =>
    rw [visibleNames, visibleNames, judge_alike alike]
    simp only [ih]

theorem surfaceInOrder_alike (alike : candidates.Alike candidates') :
    (candidates.surfaceInOrder config order).withoutProvenance =
      (candidates'.surfaceInOrder config order).withoutProvenance := by
  -- Types are put in order by their symbols, which stay.
  have sorted (types : List VisibleType) :
      (types.mergeSort fun a b => !decide (b.symbol < a.symbol)).map VisibleType.withoutProvenance =
        (types.map VisibleType.withoutProvenance).mergeSort fun a b =>
          !decide (b.symbol < a.symbol) :=
    List.map_mergeSort fun _ _ _ _ => rfl
  have types (name : String) : (candidates.byName[name]?.map Candidate.type).map
      VisibleType.withoutProvenance = (candidates'.byName[name]?.map Candidate.type).map
        VisibleType.withoutProvenance := by
    have same := congrArg (Option.map Candidate.type) (alike name)
    rw [Option.map_map, Option.map_map] at same ⊢
    exact same
  rw [Surface.withoutProvenance, Surface.withoutProvenance, surfaceInOrder, surfaceInOrder, sorted,
    sorted, visibleNames_alike alike, List.map_filterMap, List.map_filterMap]
  simp only [types]

/-! ## The order of judging -/

theorem VisibleAt.alike (alike : candidates.Alike candidates') {depth : Nat}
    (visible : candidates.VisibleAt config depth name) :
    candidates'.VisibleAt config depth name := by
  induction visible with
  | outermost found isOpen alone =>
    obtain ⟨candidate', found', same⟩ := alike.found found
    have isOpen' := congrArg (Candidate.isOpen · config) same
    have alone' := congrArg Candidate.nesting same
    exact .outermost found' (isOpen'.trans isOpen) (alone'.trans alone)
  | nested found isOpen within _ ih =>
    obtain ⟨candidate', found', same⟩ := alike.found found
    have isOpen' := congrArg (Candidate.isOpen · config) same
    have within' := congrArg Candidate.nesting same
    exact .nested found' (isOpen'.trans isOpen) (within'.trans within) ih

theorem WithinReach.alike (alike : candidates.Alike candidates')
    (reach : candidates.WithinReach config) : candidates'.WithinReach config :=
  fun name depth visible => reach name depth (visible.alike alike.symm)

def NamesApart (candidates : Candidates) : Prop :=
  ∀ {name name' : String} {candidate candidate' : Candidate},
    candidates.byName[name]? = some candidate → candidates.byName[name']? = some candidate' →
    candidate.type.symbol = candidate'.type.symbol → name = name'

theorem NamesApart.alike (alike : candidates.Alike candidates') (apart : candidates.NamesApart) :
    candidates'.NamesApart := by
  intro name name' candidate candidate' found found' same
  obtain ⟨former, formerly, alike₁⟩ := alike.symm.found found
  obtain ⟨former', formerly', alike₂⟩ := alike.symm.found found'
  have symbol : former.type.symbol = candidate.type.symbol := congrArg (·.type.symbol) alike₁
  have symbol' : former'.type.symbol = candidate'.type.symbol := congrArg (·.type.symbol) alike₂
  exact apart formerly formerly' ((symbol.trans same).trans symbol'.symm)

theorem surfaceInOrder_of_names (reach : candidates.WithinReach config)
    (apart : candidates.NamesApart) (once : order.Nodup) (once' : order'.Nodup)
    (same : ∀ name, name ∈ order ↔ name ∈ order') :
    candidates.surfaceInOrder config order = candidates.surfaceInOrder config order' := by
  apply Surface.ext_ascending (surfaceInOrder_ascending reach once apart)
    (surfaceInOrder_ascending reach once' apart)
  intro type
  simp only [mem_surfaceInOrder reach, same]

theorem surface_alike (alike : candidates.Alike candidates') (reach : candidates.WithinReach config)
    (apart : candidates.NamesApart) :
    (candidates.surface config).withoutProvenance =
      (candidates'.surface config).withoutProvenance := by
  have keys (name : String) : name ∈ candidates.byName.keys ↔ name ∈ candidates'.byName.keys := by
    rw [Std.HashMap.mem_keys, Std.HashMap.mem_keys, Std.HashMap.mem_iff_isSome_getElem?,
      Std.HashMap.mem_iff_isSome_getElem?, ← Option.isSome_map (f := Candidate.withoutProvenance),
      alike name, Option.isSome_map]
  rw [surface, surfaceInOrder_alike alike, surface,
    surfaceInOrder_of_names (reach.alike alike) (apart.alike alike)
      Std.HashMap.nodup_keys Std.HashMap.nodup_keys keys]

end Candidates

/-! ## Classes and their candidates -/

/-- Whether different names of types that some classes define are different when written with dots. -/
def NamesApart (units : List ClassFile) : Prop :=
  ∀ a ∈ units, ∀ b ∈ units, a.definesType = true → b.definesType = true →
    a.symbol = b.symbol → a.thisClass = b.thisClass

theorem namesApart_ofClasses (apart : NamesApart units)
    (read : Candidates.ofClasses units = .ok candidates) : candidates.NamesApart := by
  intro name name' candidate candidate' found found' same
  obtain ⟨unit, listed, defines, rfl, opened⟩ := ofClasses_lookup read found
  obtain ⟨unit', listed', defines', rfl, opened'⟩ := ofClasses_lookup read found'
  rw [ofClass_symbol opened, ofClass_symbol opened'] at same
  exact apart unit listed unit' listed' defines defines' same

/-- The classes that the candidates come from stand for them, others of the same names having been
replaced. -/
theorem withinReach_of_shallow (shallow : Shallow (· ∈ units))
    (read : Candidates.ofClasses units = .ok candidates) : candidates.WithinReach config := by
  let remains (unit : ClassFile) : Prop := unit ∈ units ∧ unit.definesType = true ∧
    ∃ candidate, Candidate.ofClass unit = .ok candidate ∧
      candidates.byName[unit.thisClass]? = some candidate
  have stand : candidates.StandFor remains := by
    constructor
    · intro name candidate found
      obtain ⟨unit, listed, defines, rfl, opened⟩ := ofClasses_lookup read found
      exact ⟨unit, ⟨listed, defines, candidate, opened, found⟩, defines, rfl, opened⟩
    · rintro unit ⟨-, -, candidate, opened, found⟩ -
      exact ⟨candidate, opened, found⟩
  have shallow : Shallow remains := fun chain each =>
    shallow chain fun unit listed => ⟨(each unit listed).1.1, (each unit listed).2⟩
  exact shallow.withinReach stand

theorem ofClass_sourceFile (read : Candidate.ofClass unit = .ok candidate) :
    candidate.type.sourceFile = unit.sourceFile := by
  obtain ⟨_, _, _, -, -, -, rfl⟩ := ofClass_eq_ok.mp read
  rfl

theorem hidesSources_of_classes (read : Candidates.ofClasses units = .ok candidates)
    (hidden : ∀ unit ∈ units, ∀ name ∈ unit.sourceFile, StaysComment name) :
    (candidates.surfaceInOrder config order).HidesSources := by
  intro type listed
  obtain ⟨name, candidate, found, rfl⟩ := Candidates.mem_surfaceInOrder_found listed
  obtain ⟨unit, given, -, -, opened⟩ := ofClasses_lookup read found
  rw [ofClass_sourceFile opened]
  exact hidden unit given

def Surface.SameReduced (surface surface' : Surface) : Prop :=
  ∀ index, (AbiReport.ofSurface surface index).reduced =
      (AbiReport.ofSurface surface' index).reduced ∧
    (AbiReport.ofSurface surface index).fingerprint = (AbiReport.ofSurface surface' index).fingerprint

theorem Surface.sameReduced_iff {surface surface' : Surface} :
    surface.SameReduced surface' ↔ reduceDump surface.dump = reduceDump surface'.dump :=
  ⟨fun same => (same none).1, fun same _ => ⟨same, congrArg Sha256.ofText same⟩⟩

/-- Whether two surfaces are reported alike but for what gets into the reduced form from the names of
source files. -/
structure Surface.ReducesAlike (surface surface' : Surface) : Prop where
  strays : surface.strays = surface'.strays → surface.SameReduced surface'
  hidden : surface.HidesSources → (surface.SameReduced surface' ↔ surface'.HidesSources)

theorem Surface.reducesAlike {surface surface' : Surface}
    (same : surface.withoutProvenance = surface'.withoutProvenance) :
    surface.ReducesAlike surface' where
  strays strays := sameReduced_iff.mpr (reduceDump_congr same strays)
  hidden hidden := sameReduced_iff.trans (reduceDump_eq_iff same hidden)

/-- Classes that differ in the names of source files and in versions only have the same reduced form
and fingerprint, as long as what the names bring into the dumps is comment. -/
theorem reducedForm_of_provenance (config : AbiConfig)
    (same : units.map ClassFile.withoutProvenance = units'.map ClassFile.withoutProvenance) :
    (∀ fault, Candidates.ofClasses units = .error fault ↔
      Candidates.ofClasses units' = .error fault) ∧
    ∀ candidates candidates', Candidates.ofClasses units = .ok candidates →
      Candidates.ofClasses units' = .ok candidates' →
      (∀ order, (candidates.surfaceInOrder config order).ReducesAlike
        (candidates'.surfaceInOrder config order)) ∧
      (NamesApart units → Shallow (· ∈ units) →
        (candidates.surface config).ReducesAlike (candidates'.surface config)) := by
  have ends := Candidates.ofClasses_alike same
  refine ⟨ends.error_iff, fun candidates candidates' read read' => ?_⟩
  have alike := ends.values read read'
  constructor
  · exact fun order => Surface.reducesAlike (Candidates.surfaceInOrder_alike alike)
  · intro apart shallow
    exact Surface.reducesAlike (Candidates.surface_alike alike (withinReach_of_shallow shallow read)
      (namesApart_ofClasses apart read))

/-! ### A class with different source files -/

namespace Sourced

def named (source : String) (major : UInt16) : ClassFile where
  minor := 0
  major := major
  pool := ⟨#[none, some (.utf8 "A"), some (.classInfo 1), some (.utf8 "java/lang/Object"),
    some (.classInfo 3), some (.utf8 "SourceFile"), some (.utf8 source)]⟩
  flags := ⟨0x21⟩
  thisClass := "A"
  superClass := some "java/lang/Object"
  interfaces := []
  fields := []
  methods := []
  attributes := [.sourceFile source]

def bytes (source : List UInt8) : List UInt8 :=
  [202, 254, 186, 190, 0, 0, 0, 52, 0, 7, 1, 0, 1, 65, 7, 0, 1, 1, 0, 16, 106, 97, 118, 97, 47, 108,
    97, 110, 103, 47, 79, 98, 106, 101, 99, 116, 7, 0, 3, 1, 0, 10, 83, 111, 117, 114, 99, 101, 70,
    105, 108, 101, 1] ++ source ++
  [0, 33, 0, 2, 0, 4, 0, 0, 0, 0, 0, 0, 0, 1, 0, 5, 0, 0, 0, 2, 0, 6]

theorem decodes :
    ClassFile.ofBytes (bytes [0, 6, 65, 46, 106, 97, 118, 97]) = .ok (named "A.java" 52) ∧
    ClassFile.ofBytes (bytes [0, 3, 97, 10, 98]) = .ok (named "a\nb" 52) := by
  decide +kernel

theorem opens (source : String) (major : UInt16) :
    ∃ candidates, Candidates.ofClasses [named source major] = .ok candidates ∧
      candidates.surface {} = ⟨[(Candidate.assemble (named source major) [] []).type]⟩ := by
  have read : Candidate.ofClass (named source major) =
      .ok (Candidate.assemble (named source major) [] []) :=
    ofClass_eq_ok.mpr ⟨[], [], [], rfl, rfl, rfl, rfl⟩
  have defines : (named source major).definesType = (named "" 52).definesType := rfl
  have flags : (⟨0x21⟩ : AccessFlags).isPublic = true ∧
      (⟨0x21⟩ : AccessFlags).isSynthetic = false := by
    decide
  have visible : VisibleAmong (· = named source major) {} (named source major) :=
    .outermost rfl ⟨defines.trans (by decide), flags.1, rfl, flags.2, by simp [AbiConfig.LeavesOut]⟩
      rfl
  have wellDeclared := ofClass_succeeds.mp ⟨_, read⟩
  obtain ⟨candidates, opened⟩ := ofClasses_succeeds.mpr <|
    List.forall_mem_singleton.mpr fun _ : (named source major).definesType = true => wellDeclared
  exact ⟨candidates, opened,
    surface_singleton (fun _ => List.mem_singleton) visible read opened⟩

end Sourced

theorem reducedForm_of_provenance_recompiled :
    [Sourced.named "A.java" 52].map ClassFile.withoutProvenance =
      [Sourced.named "A.kt\n// of A" 61].map ClassFile.withoutProvenance ∧
    NamesApart [Sourced.named "A.java" 52] ∧ Shallow (· ∈ [Sourced.named "A.java" 52]) ∧
    ∃ candidates candidates', Candidates.ofClasses [Sourced.named "A.java" 52] = .ok candidates ∧
      Candidates.ofClasses [Sourced.named "A.kt\n// of A" 61] = .ok candidates' ∧
      (candidates.surface {}).types ≠ [] ∧
      (candidates.surface {}).dump ≠ (candidates'.surface {}).dump ∧
      (candidates.surface {}).SameReduced (candidates'.surface {}) := by
  obtain ⟨candidates, read, surface⟩ := Sourced.opens "A.java" 52
  obtain ⟨candidates', read', surface'⟩ := Sourced.opens "A.kt\n// of A" 61
  have same : [Sourced.named "A.java" 52].map ClassFile.withoutProvenance =
      [Sourced.named "A.kt\n// of A" 61].map ClassFile.withoutProvenance := rfl
  have apart : NamesApart [Sourced.named "A.java" 52] := by
    simp [NamesApart]
  have shallow : Shallow (· ∈ [Sourced.named "A.java" 52]) := shallow_of_length (by simp)
  have hidden : (candidates.surface {}).HidesSources :=
    hidesSources_of_classes read (by decide)
  have hidden' : (candidates'.surface {}).HidesSources :=
    hidesSources_of_classes read' (by decide)
  obtain ⟨-, alike⟩ := reducedForm_of_provenance {} same
  have reduces := (alike candidates candidates' read read').2 apart shallow
  refine ⟨same, apart, shallow, candidates, candidates', read, read', ?_, ?_,
    (reduces.hidden hidden).mpr hidden'⟩
  · rw [surface]
    exact nofun
  · rw [surface, surface']
    decide +kernel

/-- What stands behind a line feed in the name of a source file gets into the reduced form. -/
theorem reducedForm_shows_source :
    ClassFile.ofBytes (Sourced.bytes [0, 6, 65, 46, 106, 97, 118, 97]) =
      .ok (Sourced.named "A.java" 52) ∧
    ClassFile.ofBytes (Sourced.bytes [0, 3, 97, 10, 98]) = .ok (Sourced.named "a\nb" 52) ∧
    [Sourced.named "A.java" 52].map ClassFile.withoutProvenance =
      [Sourced.named "a\nb" 52].map ClassFile.withoutProvenance ∧
    ∃ candidates candidates', Candidates.ofClasses [Sourced.named "A.java" 52] = .ok candidates ∧
      Candidates.ofClasses [Sourced.named "a\nb" 52] = .ok candidates' ∧
      (AbiReport.ofSurface (candidates.surface {}) none).reduced = "public class A\n\n" ∧
      (AbiReport.ofSurface (candidates'.surface {}) none).reduced = "b\npublic class A\n\n" ∧
      (AbiReport.ofSurface (candidates.surface {}) none).fingerprint ≠
        (AbiReport.ofSurface (candidates'.surface {}) none).fingerprint := by
  obtain ⟨candidates, read, surface⟩ := Sourced.opens "A.java" 52
  obtain ⟨candidates', read', surface'⟩ := Sourced.opens "a\nb" 52
  refine ⟨Sourced.decodes.1, Sourced.decodes.2, rfl, candidates, candidates', read, read', ?_⟩
  rw [surface, surface']
  decide +kernel

end Linkage
