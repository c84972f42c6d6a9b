import Linkage.Proofs.FileTrees
import Linkage.Proofs.Ordering
import Linkage.Proofs.Visibility
import Mathlib.Data.List.Nodup

/-!
# Classes with the same declarations

What a surface says depends on declarations only: `ClassFile.SameDeclaration` leaves open in which
order a class has its members and interfaces, which members it has that are not declared, and what
its other attributes and its constants are. Outputs that hold classes with the same declarations have
the same surface, and the same report on it: `surface_of_sameDeclarations`.
-/

namespace Linkage

/-! ## Lists in another order -/

theorem SymbolSet.ofList_congr {symbols symbols' : List Symbol}
    (same : ∀ symbol, symbol ∈ symbols ↔ symbol ∈ symbols') :
    SymbolSet.ofList symbols = SymbolSet.ofList symbols' := by
  apply SymbolSet.ext
  simpa using same

theorem mergeSort_symbols {symbols symbols' : List Symbol} (same : symbols.Perm symbols') :
    symbols.mergeSort SymbolSet.inOrder = symbols'.mergeSort SymbolSet.inOrder :=
  mergeSort_keyed_of_perm Symbol.name (not_above_iff Symbol.name) same fun _ _ _ _ =>
    congrArg Symbol.mk

namespace VisibleMember

def key (member : VisibleMember) : String × String := (member.name, member.descriptor)

theorem mergeSort_members {members members' : List VisibleMember} (same : members.Perm members')
    (different : (members.map key).Nodup) :
    members.mergeSort inOrder = members'.mergeSort inOrder :=
  mergeSort_of_perm key same fun _ listed _ listed' =>
    List.inj_on_of_nodup_map different listed listed'

end VisibleMember

variable {config : AbiConfig} {unit unit' : ClassFile} {member : Member} {candidate : Candidate}

namespace Member

/-- Whether a field, or a method that is no bridge, belongs to what others are compiled against. -/
structure Declared (member : Member) : Prop where
  letsIn : member.flags.isPublic = true ∨ member.flags.isProtected = true
  unmarked : member.markedSynthetic = false
  unflagged : member.flags.isSynthetic = false
  notInitialiser : member.name ≠ "<clinit>"
  noDollar : '$' ∉ member.name.toList

theorem isDeclared_iff : member.isDeclared = true ↔ member.Declared := by
  simp only [isDeclared, isSynthetic, Bool.and_eq_true, isVisible_iff, Bool.not_eq_true',
    Bool.or_eq_false_iff, decide_eq_true_eq, List.contains_eq_mem, decide_eq_false_iff_not]
  constructor
  · rintro ⟨⟨⟨letsIn, unmarked, unflagged⟩, notInitialiser⟩, noDollar⟩
    exact ⟨letsIn, unmarked, unflagged, notInitialiser, noDollar⟩
  · rintro ⟨letsIn, unmarked, unflagged, notInitialiser, noDollar⟩
    exact ⟨⟨⟨letsIn, unmarked, unflagged⟩, notInitialiser⟩, noDollar⟩

instance : DecidablePred Declared := fun _ => decidable_of_iff _ isDeclared_iff

def outline (member : Member) : Member :=
  { member with attributes := member.signature.toList.map .signature }

theorem signature_outline : member.outline.signature = member.signature := by
  unfold outline signature
  cases Attribute.signatureOf member.attributes <;> rfl

theorem exposing_outline {modifiers : List Modifier} {type : MemberType} :
    member.outline.exposing modifiers type = member.exposing modifiers type := by
  unfold exposing
  rw [signature_outline]
  rfl

theorem visibleField_outline : member.outline.visibleField = member.visibleField := by
  unfold visibleField
  simp only [exposing_outline]
  rfl

theorem visibleMethod_outline : member.outline.visibleMethod = member.visibleMethod := by
  unfold visibleMethod
  simp only [exposing_outline]
  rfl

def key (member : Member) : String × String := (member.name, member.descriptor)

theorem exposing_key {α : Type} {read : Except Fault α} {modifiers : List Modifier}
    {type : α → MemberType} {exposed : VisibleMember × List String}
    (opened : (read >>= fun value => member.exposing modifiers (type value)) = .ok exposed) :
    exposed.1.key = member.key := by
  obtain ⟨_, -, opened⟩ := bind_eq_ok.mp opened
  obtain ⟨_, -, opened⟩ := bind_eq_ok.mp opened
  cases opened
  rfl

end Member

namespace ClassFile

def declaredFields (unit : ClassFile) : List Member :=
  unit.fields.filter fun field => decide field.Declared

def declaredMethods (unit : ClassFile) : List Member :=
  unit.methods.filter fun method => decide (method.Declared ∧ method.flags.isBridge = false)

/-- Whether no two declared members of a class have the same name and descriptor. -/
def DistinctMembers (unit : ClassFile) : Prop :=
  ((unit.declaredFields ++ unit.declaredMethods).map Member.key).Nodup

structure SameDeclaration (unit unit' : ClassFile) : Prop where
  minor : unit.minor = unit'.minor
  major : unit.major = unit'.major
  flags : unit.flags = unit'.flags
  thisClass : unit.thisClass = unit'.thisClass
  superClass : unit.superClass = unit'.superClass
  sourceFile : unit.sourceFile = unit'.sourceFile
  signature : unit.signature = unit'.signature
  marked : unit.markedSynthetic = unit'.markedSynthetic
  selfEntry : unit.selfEntry = unit'.selfEntry
  interfaces : unit.interfaces.Perm unit'.interfaces
  fields : (unit.declaredFields.map Member.outline).Perm (unit'.declaredFields.map Member.outline)
  methods :
    (unit.declaredMethods.map Member.outline).Perm (unit'.declaredMethods.map Member.outline)

namespace SameDeclaration

theorem symm (same : unit.SameDeclaration unit') : unit'.SameDeclaration unit where
  minor := same.minor.symm
  major := same.major.symm
  flags := same.flags.symm
  thisClass := same.thisClass.symm
  superClass := same.superClass.symm
  sourceFile := same.sourceFile.symm
  signature := same.signature.symm
  marked := same.marked.symm
  selfEntry := same.selfEntry.symm
  interfaces := same.interfaces.symm
  fields := same.fields.symm
  methods := same.methods.symm

theorem symbol (same : unit.SameDeclaration unit') : unit.symbol = unit'.symbol := by
  rw [ClassFile.symbol, same.thisClass, ClassFile.symbol]

theorem definesType (same : unit.SameDeclaration unit') : unit.definesType = unit'.definesType := by
  rw [ClassFile.definesType, same.flags, same.thisClass, ClassFile.definesType]

theorem opens (same : unit.SameDeclaration unit') (opens : unit.Opens config) :
    unit'.Opens config where
  definesType := same.definesType ▸ opens.definesType
  isPublic := same.flags ▸ opens.isPublic
  unmarked := same.marked ▸ opens.unmarked
  unflagged := same.flags ▸ opens.unflagged
  included := same.symbol ▸ opens.included

end SameDeclaration

end ClassFile

theorem filter_isDeclared : unit.fields.filter Member.isDeclared = unit.declaredFields := by
  apply List.filter_congr
  intro field _
  rw [Bool.eq_iff_iff, Member.isDeclared_iff, decide_eq_true_iff]

theorem filter_isDeclaredMethod :
    unit.methods.filter Member.isDeclaredMethod = unit.declaredMethods := by
  apply List.filter_congr
  intro method _
  rw [Bool.eq_iff_iff, Member.isDeclaredMethod, Bool.and_eq_true, Member.isDeclared_iff,
    decide_eq_true_iff, Bool.not_eq_true']

variable {read : Member → Except Fault (VisibleMember × List String)} {members members' : List Member}
  {exposed : List (VisibleMember × List String)}

theorem mapM_outline (plain : ∀ member : Member, read member.outline = read member)
    (same : (members.map Member.outline).Perm (members'.map Member.outline))
    (opened : members.mapM read = .ok exposed) :
    ∃ exposed', members'.mapM read = .ok exposed' ∧ exposed.Perm exposed' := by
  have outlined (members : List Member) :
      (members.map Member.outline).mapM read = members.mapM read := by
    rw [List.mapM_map]
    congr 1
    funext member
    exact plain member
  rw [← outlined] at opened
  obtain ⟨exposed', opened', perm⟩ := mapM_perm same opened
  exact ⟨exposed', outlined members' ▸ opened', perm⟩

theorem map_key_of_mapM
    (keyed : ∀ {member visible}, read member = .ok visible → visible.1.key = member.key)
    (opened : members.mapM read = .ok exposed) :
    (exposed.map Prod.fst).map VisibleMember.key = members.map Member.key := by
  have related := mapM_eq_ok.mp opened
  clear opened
  induction related with
  | nil => rfl
  | cons first _ ih => simp only [List.map_cons, keyed first, ih]

theorem assemble_congr (same : unit.SameDeclaration unit') {generic : List String}
    {exposed exposed' : List (VisibleMember × List String)} (perm : exposed.Perm exposed')
    (different : ((exposed.map Prod.fst).map VisibleMember.key).Nodup) :
    Candidate.assemble unit generic exposed = Candidate.assemble unit' generic exposed' := by
  have superclass : Candidate.superclass unit = Candidate.superclass unit' := by
    rw [Candidate.superclass, same.superClass, same.flags, Candidate.superclass]
  have isSynthetic : unit.isSynthetic = unit'.isSynthetic := by
    rw [ClassFile.isSynthetic, same.marked, same.flags, ClassFile.isSynthetic]
  have interfaces := mergeSort_symbols (same.interfaces.map Symbol.ofInternal)
  have members := VisibleMember.mergeSort_members (perm.map Prod.fst) different
  have names : SymbolSet.ofList (((Candidate.superclass unit').toList ++ unit.interfaces ++ generic
      ++ exposed.flatMap Prod.snd).map Symbol.ofInternal) =
      SymbolSet.ofList (((Candidate.superclass unit').toList ++ unit'.interfaces ++ generic
      ++ exposed'.flatMap Prod.snd).map Symbol.ofInternal) := by
    apply SymbolSet.ofList_congr
    intro symbol
    exact (((same.interfaces.append_left _).append_right generic).append
      (perm.flatMap_right Prod.snd) |>.map Symbol.ofInternal).mem_iff
  simp only [Candidate.assemble, superclass, isSynthetic, interfaces, members, names, same.symbol,
    same.flags, same.selfEntry, same.sourceFile, same.major, same.minor]

theorem ClassFile.SameDeclaration.ofClass (same : unit.SameDeclaration unit')
    (different : unit.DistinctMembers) (read : Candidate.ofClass unit = .ok candidate) :
    Candidate.ofClass unit' = .ok candidate := by
  obtain ⟨generic, fields, methods, signature, readFields, readMethods, rfl⟩ := ofClass_eq_ok.mp read
  rw [filter_isDeclared] at readFields
  rw [filter_isDeclaredMethod] at readMethods
  obtain ⟨fields', readFields', permFields⟩ :=
    mapM_outline (fun _ => Member.visibleField_outline) same.fields readFields
  obtain ⟨methods', readMethods', permMethods⟩ :=
    mapM_outline (fun _ => Member.visibleMethod_outline) same.methods readMethods
  rw [← filter_isDeclared] at readFields'
  rw [← filter_isDeclaredMethod] at readMethods'
  refine ofClass_eq_ok.mpr ⟨generic, fields', methods', same.signature ▸ signature, readFields',
    readMethods', (assemble_congr same (permFields.append permMethods) ?_).symm⟩
  rw [List.map_append, List.map_append, map_key_of_mapM Member.exposing_key readFields,
    map_key_of_mapM Member.exposing_key readMethods, ← List.map_append]
  exact different

variable {classes classes' : ClassFile → Prop} {units units' : List ClassFile}

/-- What is asked of some classes so that their surface does not depend on how they are given. -/
structure Orderly (classes : ClassFile → Prop) : Prop where
  distinctTypes : DistinctTypes classes
  shallow : Shallow classes
  distinctMembers : ∀ unit, classes unit → unit.definesType = true → unit.DistinctMembers

def Redeclares (classes classes' : ClassFile → Prop) : Prop :=
  ∀ unit, classes unit → unit.definesType = true →
    ∃ unit', classes' unit' ∧ unit.SameDeclaration unit'

theorem VisibleAmong.redeclared (redeclares : Redeclares classes classes')
    (visible : VisibleAmong classes config unit) (belongs' : classes' unit')
    (same : unit.SameDeclaration unit') : VisibleAmong classes' config unit' := by
  induction visible generalizing unit' with
  | outermost _ opens alone => exact .outermost belongs' (same.opens opens) (same.selfEntry ▸ alone)
  | nested _ opens own letsIn within around ih =>
    obtain ⟨around', belongsAround, sameAround⟩ :=
      redeclares _ around.belongs around.opens.definesType
    exact .nested belongs' (same.opens opens) (same.selfEntry ▸ own) letsIn
      (sameAround.thisClass ▸ within) (ih belongsAround sameAround)

theorem wellDeclared_redeclared (redeclares : Redeclares classes' classes)
    (orderly : Orderly classes)
    (declared : ∀ unit, classes unit → unit.definesType = true → unit.WellDeclared)
    (belongs' : classes' unit') (defines' : unit'.definesType = true) : unit'.WellDeclared := by
  obtain ⟨unit, belongs, same⟩ := redeclares unit' belongs' defines'
  have defines : unit.definesType = true := same.definesType ▸ defines'
  obtain ⟨candidate, read⟩ := ofClass_succeeds.mpr (declared unit belongs defines)
  have different := orderly.distinctMembers unit belongs defines
  exact ofClass_succeeds.mp ⟨candidate, same.symm.ofClass different read⟩

theorem Surface.Lists.redeclared {surface surface' : Surface}
    (redeclares : Redeclares classes classes') (orderly : Orderly classes)
    (lists : surface.Lists classes config) (lists' : surface'.Lists classes' config)
    {type : VisibleType} (listed : type ∈ surface.types) : type ∈ surface'.types := by
  obtain ⟨unit, candidate, visible, read, rfl⟩ := (lists.mem_types type).mp listed
  have defines := visible.opens.definesType
  obtain ⟨unit', belongs', same⟩ := redeclares unit visible.belongs defines
  have different := orderly.distinctMembers unit visible.belongs defines
  exact (lists'.mem_types _).mpr ⟨unit', candidate, visible.redeclared redeclares belongs' same,
    same.ofClass different read, rfl⟩

theorem Surface.Lists.unique {surface surface' : Surface} (forth : Redeclares classes classes')
    (back : Redeclares classes' classes) (orderly : Orderly classes) (orderly' : Orderly classes')
    (lists : surface.Lists classes config) (lists' : surface'.Lists classes' config) :
    surface = surface' := by
  apply Surface.ext_ascending lists.ascending lists'.ascending
  intro type
  constructor
  · exact lists.redeclared forth orderly lists'
  · exact lists'.redeclared back orderly' lists

theorem surface_of_redeclared {candidates candidates' : Candidates} {held held' : List ClassFile}
    (forth : Redeclares classes classes') (back : Redeclares classes' classes)
    (orderly : Orderly classes) (orderly' : Orderly classes')
    (listed : ∀ unit, unit ∈ held ↔ classes unit) (listed' : ∀ unit, unit ∈ held' ↔ classes' unit)
    (read : Candidates.ofClasses held = .ok candidates)
    (read' : Candidates.ofClasses held' = .ok candidates') :
    candidates.surface config = candidates'.surface config := by
  have stand := ofClasses_standFor listed orderly.distinctTypes read
  have stand' := ofClasses_standFor listed' orderly'.distinctTypes read'
  exact Surface.Lists.unique forth back orderly orderly'
    (surface_lists orderly.distinctTypes orderly.shallow stand)
    (surface_lists orderly'.distinctTypes orderly'.shallow stand')

structure OutputsHold (disk : FileSystem) (config : Config) (outputs : List Path)
    (classes : ClassFile → Prop) : Prop where
  readable : ∀ output ∈ outputs, Readable disk config.limits output
  held : ∀ unit, Held disk config outputs unit ↔ classes unit

theorem OutputsHold.wellDeclared_iff {disk : FileSystem} {config : Config} {outputs : List Path}
    (holds : OutputsHold disk config outputs classes) :
    (∀ output ∈ outputs, Readable disk config.limits output ∧ ∀ unit,
      HoldsClass disk config.limits output unit → unit.definesType = true → unit.WellDeclared) ↔
    ∀ unit, classes unit → unit.definesType = true → unit.WellDeclared := by
  constructor
  · intro each unit belongs
    obtain ⟨output, listed, holdsUnit⟩ := (holds.held unit).mpr belongs
    exact (each output listed).2 unit holdsUnit
  · intro each output listed
    refine ⟨holds.readable output listed, fun unit holdsUnit => ?_⟩
    exact each unit ((holds.held unit).mp ⟨output, listed, holdsUnit⟩)

/-! ### Rearranged classes

In the second form of `A` the interfaces and methods stand in another order, one method has code, and
there is a private method whose descriptor is none.
-/

namespace Rearranged

def plainBytes : List UInt8 :=
  [202, 254, 186, 190, 0, 0, 0, 52, 0, 12, 1, 0, 1, 65, 7, 0, 1, 1, 0, 1, 79, 7, 0, 3, 1, 0, 1, 73,
    7, 0, 5, 1, 0, 1, 74, 7, 0, 7, 1, 0, 1, 97, 1, 0, 1, 98, 1, 0, 3, 40, 41, 86, 0, 33, 0, 2, 0, 4,
    0, 2, 0, 6, 0, 8, 0, 0, 0, 2, 0, 1, 0, 10, 0, 11, 0, 0, 0, 1, 0, 9, 0, 11, 0, 0, 0, 0]

def editedBytes : List UInt8 :=
  [202, 254, 186, 190, 0, 0, 0, 52, 0, 14, 1, 0, 1, 65, 7, 0, 1, 1, 0, 1, 79, 7, 0, 3, 1, 0, 1, 73,
    7, 0, 5, 1, 0, 1, 74, 7, 0, 7, 1, 0, 1, 97, 1, 0, 1, 98, 1, 0, 3, 40, 41, 86, 1, 0, 4, 67, 111,
    100, 101, 1, 0, 1, 120, 0, 33, 0, 2, 0, 4, 0, 2, 0, 8, 0, 6, 0, 0, 0, 3, 0, 2, 0, 13, 0, 13, 0, 0,
    0, 1, 0, 9, 0, 11, 0, 1, 0, 12, 0, 0, 0, 13, 0, 0, 0, 1, 0, 0, 0, 1, 177, 0, 0, 0, 0, 0, 1, 0, 10,
    0, 11, 0, 0, 0, 0]

def otherBytes : List UInt8 :=
  [202, 254, 186, 190, 0, 0, 0, 52, 0, 5, 1, 0, 1, 66, 7, 0, 1, 1, 0, 1, 79, 7, 0, 3, 0, 33, 0, 2, 0,
    4, 0, 0, 0, 0, 0, 0, 0, 0]

def constants : List (Option Constant) :=
  [none, some (.utf8 "A"), some (.classInfo 1), some (.utf8 "O"), some (.classInfo 3),
    some (.utf8 "I"), some (.classInfo 5), some (.utf8 "J"), some (.classInfo 7), some (.utf8 "a"),
    some (.utf8 "b"), some (.utf8 "()V")]

def method (name : String) (attributes : List Attribute) : Member := ⟨⟨1⟩, name, "()V", attributes⟩

def plain : ClassFile where
  minor := 0
  major := 52
  pool := ⟨constants.toArray⟩
  flags := ⟨0x21⟩
  thisClass := "A"
  superClass := some "O"
  interfaces := ["I", "J"]
  fields := []
  methods := [method "b" [], method "a" []]
  attributes := []

def edited : ClassFile :=
  { plain with
    pool := ⟨(constants ++ [some (Constant.utf8 "Code"), some (Constant.utf8 "x")]).toArray⟩
    interfaces := ["J", "I"]
    methods := [⟨⟨2⟩, "x", "x", []⟩, method "a" [.code [] []], method "b" []] }

def other : ClassFile :=
  { plain with
    pool := ⟨#[none, some (.utf8 "B"), some (.classInfo 1), some (.utf8 "O"), some (.classInfo 3)]⟩
    thisClass := "B", interfaces := [], methods := [] }

theorem decodes : ClassFile.ofBytes plainBytes = .ok plain ∧
    ClassFile.ofBytes editedBytes = .ok edited ∧ ClassFile.ofBytes otherBytes = .ok other := by
  decide +kernel

theorem sameDeclaration : plain.SameDeclaration edited where
  minor := rfl
  major := rfl
  flags := rfl
  thisClass := rfl
  superClass := rfl
  sourceFile := rfl
  signature := rfl
  marked := rfl
  selfEntry := rfl
  interfaces := by decide
  fields := .refl _
  methods := by decide

def With (unit held : ClassFile) : Prop := held ∈ [unit, other]

theorem orderly {unit : ClassFile} (distinctMembers : unit.DistinctMembers)
    (named : unit.thisClass = "A") : Orderly (With unit) where
  distinctTypes := by
    have symbols : ([unit, other].map ClassFile.symbol).Nodup := by
      simp only [List.map_cons, List.map_nil, ClassFile.symbol, named]
      decide +kernel
    intro a b listed listed' _ _ same
    exact List.inj_on_of_nodup_map symbols listed listed' same
  shallow := shallow_of_length (by simp)
  distinctMembers := by
    unfold With
    simp only [List.mem_cons, List.not_mem_nil, or_false]
    rintro held (rfl | rfl) -
    · exact distinctMembers
    · unfold ClassFile.DistinctMembers
      decide

theorem redeclares {unit unit' : ClassFile} (same : unit.SameDeclaration unit') :
    Redeclares (With unit) (With unit') := by
  unfold Redeclares With
  simp only [List.mem_cons, List.not_mem_nil, or_false]
  rintro held (rfl | rfl) -
  · exact ⟨unit', .inl rfl, same⟩
  · exact ⟨other, .inr rfl, rfl, rfl, rfl, rfl, rfl, rfl, rfl, rfl, rfl, .refl _, .refl _, .refl _⟩

def files (bytes : List UInt8) : FileSystem :=
  ⟨.directory [("A.class", .file ⟨bytes.toArray⟩), ("B.class", .file ⟨otherBytes.toArray⟩),
    ("-", .directory [("A.class", .file ⟨bytes.toArray⟩)])], []⟩

theorem find_a (bytes : List UInt8) :
    (files bytes).find ⟨"A.class"⟩ = .ok (.file ⟨bytes.toArray⟩) :=
  FileSystem.find_name (by decide) rfl

theorem find_b (bytes : List UInt8) :
    (files bytes).find ⟨"B.class"⟩ = .ok (.file ⟨otherBytes.toArray⟩) :=
  FileSystem.find_name (by decide) rfl

theorem find_dash (bytes : List UInt8) : (files bytes).find ⟨"-"⟩ =
    .ok (.directory [("A.class", .file ⟨bytes.toArray⟩)]) :=
  FileSystem.find_name (by decide) rfl

theorem endings : (⟨"A.class"⟩ : Path).extension? = some UnitSource.classExtension ∧
    (⟨"B.class"⟩ : Path).extension? = some UnitSource.classExtension :=
  ⟨(Path.extension?_name (by decide) (by decide)).mpr ⟨"A", by decide, rfl⟩,
    (Path.extension?_name (by decide) (by decide)).mpr ⟨"B", by decide, rfl⟩⟩

theorem size_le {bytes : List UInt8} (small : bytes.length ≤ 1000) :
    (⟨bytes.toArray⟩ : ByteArray).size ≤ ({} : Config).limits.entryBytes :=
  Nat.le_trans small (by decide)

theorem outputsHold {bytes : List UInt8} {unit : ClassFile} (small : bytes.length ≤ 1000)
    (decoded : ClassFile.ofBytes bytes = .ok unit) {outputs : List Path}
    (listed : ∀ output, output ∈ outputs ↔ output = ⟨"A.class"⟩ ∨ output = ⟨"B.class"⟩) :
    OutputsHold (files bytes) {} outputs (With unit) := by
  have located := find_a bytes
  have located' := find_b bytes
  have size := size_le small
  have size' : (⟨otherBytes.toArray⟩ : ByteArray).size ≤ _ := size_le (by decide)
  refine ⟨fun output member => ?_, fun held => ?_⟩
  · rcases (listed output).mp member with rfl | rfl
    · exact (readable_classFile located endings.1).mpr ⟨size, unit, decoded⟩
    · exact (readable_classFile located' endings.2).mpr ⟨size', other, decodes.2.2⟩
  · unfold Held With
    simp only [List.mem_cons, List.not_mem_nil, or_false, listed, exists_eq_or_imp,
      exists_eq_left, holdsClass_classFile located endings.1,
      holdsClass_classFile located' endings.2, size, size', true_and, decoded, decodes.2.2,
      Except.ok.injEq]
    exact or_congr eq_comm eq_comm

theorem wellDeclared : plain.WellDeclared ∧ other.WellDeclared := by
  have type : ∃ type, MethodType.ofDescriptor "()V" = .ok type := ⟨⟨[], none⟩, by decide +kernel⟩
  have declares {unit : ClassFile} (signature : unit.signature = none) (fields : unit.fields = [])
      (methods : ∀ method ∈ unit.methods, method.descriptor = "()V" ∧ method.signature = none) :
      unit.WellDeclared := by
    refine ⟨by simp [SignatureReads, signature], by simp [fields], fun method listed _ => ?_⟩
    obtain ⟨descriptor, signature⟩ := methods method listed
    rw [descriptor, signature]
    exact ⟨type, by simp [SignatureReads]⟩
  exact ⟨declares rfl rfl (by decide), declares rfl rfl (by decide)⟩

theorem visible_plain : VisibleAmong (· = plain) {} plain :=
  .outermost rfl ⟨by decide, by decide, rfl, by decide,
    by simp [AbiConfig.LeavesOut]⟩ rfl

theorem held_plain {unit : ClassFile} :
    Held (files plainBytes) {} [⟨"A.class"⟩] unit ↔ unit = plain := by
  unfold Held
  simp only [List.mem_singleton, exists_eq_left, holdsClass_classFile (find_a plainBytes) endings.1,
    decodes.1, Except.ok.injEq]
  constructor
  · exact fun holds => holds.2.symm
  · exact fun same => ⟨size_le (by decide), same.symm⟩

theorem readable_a : ∀ output ∈ [(⟨"A.class"⟩ : Path)],
    Readable (files plainBytes) {} output ∧ ∀ unit, HoldsClass (files plainBytes) {} output unit →
      unit.definesType = true → unit.WellDeclared := by
  simp only [List.mem_singleton, forall_eq]
  constructor
  · exact (readable_classFile (find_a plainBytes) endings.1).mpr
      ⟨size_le (by decide), plain, decodes.1⟩
  · intro unit holds _
    rw [held_plain.mp ⟨_, List.mem_singleton_self _, holds⟩]
    exact wellDeclared.1

theorem not_held_dash {unit : ClassFile} : ¬ Held (files plainBytes) {} [⟨"-"⟩] unit := by
  rintro ⟨output, listed, holds⟩
  cases List.mem_singleton.mp listed
  obtain ⟨found, finds, -⟩ := (holdsClass_directory (find_dash plainBytes)).mp holds
  exact not_finds_dash finds

theorem readable_dash : Readable (files plainBytes) {} ⟨"-"⟩ := by
  rw [readable_directory (find_dash plainBytes)]
  exact fun found finds => absurd finds not_finds_dash

end Rearranged

theorem surface_of_sameDeclarations (config : Config) (orderly : Orderly classes)
    (orderly' : Orderly classes') (forth : Redeclares classes classes')
    (back : Redeclares classes' classes) :
    (∀ held held' : List ClassFile, (∀ unit, unit ∈ held ↔ classes unit) →
      (∀ unit, unit ∈ held' ↔ classes' unit) →
      ((∃ candidates, Candidates.ofClasses held = .ok candidates) ↔
        ∃ candidates, Candidates.ofClasses held' = .ok candidates) ∧
      ∀ candidates candidates', Candidates.ofClasses held = .ok candidates →
        Candidates.ofClasses held' = .ok candidates' →
        candidates.surface config.abi = candidates'.surface config.abi) ∧
    ∀ disk disk' outputs outputs', OutputsHold disk config outputs classes →
      OutputsHold disk' config outputs' classes' →
      (extractSurface disk config outputs).Agrees (extractSurface disk' config outputs') ∧
      ∀ index, (analyzeAbi disk config index outputs).Agrees
        (analyzeAbi disk' config index outputs') := by
  have declared : (∀ unit, classes unit → unit.definesType = true → unit.WellDeclared) ↔
      ∀ unit, classes' unit → unit.definesType = true → unit.WellDeclared :=
    ⟨fun all _ => wellDeclared_redeclared back orderly all,
      fun all _ => wellDeclared_redeclared forth orderly' all⟩
  constructor
  · intro held held' listed listed'
    constructor
    · rw [ofClasses_succeeds, ofClasses_succeeds]
      simpa only [listed, listed'] using declared
    · intro candidates candidates' read read'
      exact surface_of_redeclared forth back orderly orderly' listed listed' read read'
  · intro disk disk' outputs outputs' holds holds'
    have same := holds.wellDeclared_iff.trans (declared.trans holds'.wellDeclared_iff.symm)
    constructor
    · apply extractSurface_computes.agrees extractSurface_computes same
      rintro _ _ ⟨held, candidates, listed, read, rfl⟩ ⟨held', candidates', listed', read', rfl⟩
      exact surface_of_redeclared forth back orderly orderly'
        (fun unit => (listed unit).trans (holds.held unit))
        (fun unit => (listed' unit).trans (holds'.held unit)) read read'
    · intro index
      apply analyzeAbi_computes.agrees analyzeAbi_computes same
      rintro _ _ ⟨held, candidates, listed, read, rfl⟩ ⟨held', candidates', listed', read', rfl⟩
      rw [surface_of_redeclared forth back orderly orderly'
        (fun unit => (listed unit).trans (holds.held unit))
        (fun unit => (listed' unit).trans (holds'.held unit)) read read']

theorem surface_of_sameDeclarations_rearranged :
    Orderly (Rearranged.With Rearranged.plain) ∧ Orderly (Rearranged.With Rearranged.edited) ∧
    Redeclares (Rearranged.With Rearranged.plain) (Rearranged.With Rearranged.edited) ∧
    Redeclares (Rearranged.With Rearranged.edited) (Rearranged.With Rearranged.plain) ∧
    (∃ candidates candidates',
      Candidates.ofClasses [Rearranged.plain, Rearranged.other] = .ok candidates ∧
      Candidates.ofClasses [Rearranged.other, Rearranged.edited] = .ok candidates' ∧
      candidates.surface {} = candidates'.surface {}) ∧
    (analyzeAbi (Rearranged.files Rearranged.plainBytes) {} none [⟨"A.class"⟩, ⟨"B.class"⟩]).Agrees
      (analyzeAbi (Rearranged.files Rearranged.editedBytes) {} none
        [⟨"B.class"⟩, ⟨"A.class"⟩]) := by
  have orderly : Orderly (Rearranged.With Rearranged.plain) := by
    refine Rearranged.orderly ?_ rfl
    unfold ClassFile.DistinctMembers
    decide
  have orderly' : Orderly (Rearranged.With Rearranged.edited) := by
    refine Rearranged.orderly ?_ rfl
    unfold ClassFile.DistinctMembers
    decide
  have forth := Rearranged.redeclares Rearranged.sameDeclaration
  have back := Rearranged.redeclares Rearranged.sameDeclaration.symm
  obtain ⟨lists, runs⟩ := surface_of_sameDeclarations {} orderly orderly' forth back
  refine ⟨orderly, orderly', forth, back, ?_, ?_⟩
  · obtain ⟨together, equal⟩ := lists [Rearranged.plain, Rearranged.other]
      [Rearranged.other, Rearranged.edited] (fun _ => Iff.rfl)
      (by simp [Rearranged.With, or_comm])
    have read : ∃ candidates, Candidates.ofClasses [Rearranged.plain, Rearranged.other] =
        .ok candidates := by
      rw [ofClasses_succeeds, List.forall_mem_cons, List.forall_mem_singleton]
      exact ⟨fun _ => Rearranged.wellDeclared.1, fun _ => Rearranged.wellDeclared.2⟩
    obtain ⟨candidates', read'⟩ := together.mp read
    obtain ⟨candidates, read⟩ := read
    exact ⟨candidates, candidates', read, read', equal _ _ read read'⟩
  · have holds : OutputsHold _ {} [⟨"A.class"⟩, ⟨"B.class"⟩] _ :=
      Rearranged.outputsHold (by decide) Rearranged.decodes.1 (by simp)
    have holds' : OutputsHold _ {} [⟨"B.class"⟩, ⟨"A.class"⟩] _ :=
      Rearranged.outputsHold (by decide) Rearranged.decodes.2.1 (by simp [or_comm])
    exact (runs _ _ _ _ holds holds').2 none

/-- In a directory that is called like standard input a class is passed over. -/
theorem extractSurface_passes_class :
    (Rearranged.files Rearranged.plainBytes).find ⟨"A.class"⟩ =
      .ok (.file ⟨Rearranged.plainBytes.toArray⟩) ∧
    (Rearranged.files Rearranged.plainBytes).find ⟨"-"⟩ =
      .ok (.directory [("A.class", .file ⟨Rearranged.plainBytes.toArray⟩)]) ∧
    ClassFile.ofBytes Rearranged.plainBytes = .ok Rearranged.plain ∧
    (∃ surface later, extractSurface (Rearranged.files Rearranged.plainBytes) {} [⟨"A.class"⟩] [] =
      .ok surface later ∧ surface.types ≠ []) ∧
    ∃ surface later, extractSurface (Rearranged.files Rearranged.plainBytes) {} [⟨"-"⟩] [] =
      .ok surface later ∧ surface.types = [] := by
  refine ⟨Rearranged.find_a _, Rearranged.find_dash _, Rearranged.decodes.1, ?_, ?_⟩
  · have extract : (extractSurface (Rearranged.files Rearranged.plainBytes) {}
        [⟨"A.class"⟩]).Computes _ _ := extractSurface_computes
    obtain ⟨surface, later, ran⟩ := (extract.ok_iff []).mpr Rearranged.readable_a
    obtain ⟨classes, candidates, held, read, rfl⟩ := extract.holds ran
    obtain ⟨candidate, opened⟩ := ofClass_succeeds.mpr Rearranged.wellDeclared.1
    refine ⟨_, later, ran, ?_⟩
    rw [surface_singleton (fun unit => (held unit).trans Rearranged.held_plain)
      Rearranged.visible_plain opened read]
    exact nofun
  · have extract : (extractSurface (Rearranged.files Rearranged.plainBytes) {}
        [⟨"-"⟩]).Computes _ _ := extractSurface_computes
    obtain ⟨surface, later, ran⟩ := (extract.ok_iff []).mpr <| by
      simp only [List.mem_singleton, forall_eq]
      exact ⟨Rearranged.readable_dash, fun unit holds =>
        absurd ⟨_, List.mem_singleton_self _, holds⟩ Rearranged.not_held_dash⟩
    obtain ⟨classes, candidates, held, read, rfl⟩ := extract.holds ran
    have none : classes = [] := by
      apply List.eq_nil_iff_forall_not_mem.mpr
      exact fun unit listed => Rearranged.not_held_dash ((held unit).mp listed)
    rw [none] at read
    cases read
    exact ⟨_, later, ran, by decide +kernel⟩

end Linkage
