import Linkage.ClassFile.References
import Linkage.Proofs.AttributeFormat
import Mathlib.Data.List.Forall2

/-!
# Class files and their bytes

A `ClassForm` is a class file with all that its bytes say. Whatever follows the bytes of a form that
fits the widths of the fields, a class file is read from them, and it says what the form says.
-/

namespace Linkage

open Decoder

structure MemberForm where
  flags : UInt16
  name : TextRef
  descriptor : TextRef
  attributes : List AttributeForm

namespace MemberForm

def encode (form : MemberForm) : List UInt8 :=
  twoBytes form.flags ++ (twoBytes form.name.index ++ (twoBytes form.descriptor.index
    ++ listed AttributeForm.encode form.attributes))

structure Fits (pool : Pool) (form : MemberForm) : Prop where
  name : form.name.LiesIn pool
  descriptor : form.descriptor.LiesIn pool
  attributes : Listable (AttributeForm.Fits pool) form.attributes

def meaning (form : MemberForm) : Member where
  flags := ⟨form.flags⟩
  name := form.name.text
  descriptor := form.descriptor.text
  attributes := form.attributes.map AttributeForm.meaning

end MemberForm

structure ClassForm where
  minor : UInt16
  major : UInt16
  constants : List ConstantForm
  flags : UInt16
  thisClass : ClassRef
  superClass : Option ClassRef
  interfaces : List ClassRef
  fields : List MemberForm
  methods : List MemberForm
  attributes : List AttributeForm

namespace ClassForm

def pool (form : ClassForm) : Pool := .ofForms form.constants

def encode (form : ClassForm) : List UInt8 :=
  fourBytes ClassFile.magic ++ (twoBytes form.minor ++ (twoBytes form.major
    ++ (Pool.encodeForms form.constants
    ++ (twoBytes form.flags ++ (twoBytes form.thisClass.index
    ++ (twoBytes (ClassRef.indexOf form.superClass)
    ++ (listed (fun ref : ClassRef => twoBytes ref.index) form.interfaces
    ++ (listed MemberForm.encode form.fields ++ (listed MemberForm.encode form.methods
    ++ listed AttributeForm.encode form.attributes)))))))))

/-- Whether a class file can be written: each number fits its field, and each index leads to a
constant of the right kind. -/
structure Fits (form : ClassForm) : Prop where
  constants : Pool.FormsFit form.constants
  thisClass : form.thisClass.LiesIn form.pool
  superClass : ∀ ref ∈ form.superClass, ref.LiesIn form.pool
  interfaces : Listable (ClassRef.LiesIn form.pool) form.interfaces
  fields : Listable (MemberForm.Fits form.pool) form.fields
  methods : Listable (MemberForm.Fits form.pool) form.methods
  attributes : Listable (AttributeForm.Fits form.pool) form.attributes

def meaning (form : ClassForm) : ClassFile where
  minor := form.minor
  major := form.major
  pool := form.pool
  flags := ⟨form.flags⟩
  thisClass := form.thisClass.name
  superClass := form.superClass.map ClassRef.name
  interfaces := form.interfaces.map ClassRef.name
  fields := form.fields.map MemberForm.meaning
  methods := form.methods.map MemberForm.meaning
  attributes := form.attributes.map AttributeForm.meaning

end ClassForm

theorem member_reads {pool : Pool} {form : MemberForm} (opens : pool.slots[0]? = some none)
    (fits : form.Fits pool) : (Member.decoder pool).Reads form.encode form.meaning := by
  refine (u2_reads form.flags).bind ?_
  refine Reads.after_lookup fits.name.utf8 ?_
  exact (attributes_reads opens fits.attributes).map.after_lookup fits.descriptor.utf8

theorem classFile_reads {form : ClassForm} (fits : form.Fits) :
    ClassFile.decoder.Reads form.encode form.meaning := by
  have opens : form.pool.slots[0]? = some none := ofForms_zero form.constants
  have interface (ref : ClassRef) (located : ref.LiesIn form.pool) :
      (u2 >>= fun index => (liftM (form.pool.className index) : Decoder String)).Reads
        (twoBytes ref.index) ref.name := by
    rw [← List.append_nil (twoBytes ref.index)]
    exact (u2_reads ref.index).bind (lift_reads located.className)
  refine (u4_reads ClassFile.magic).bind ?_
  rw [if_neg (not_not_intro rfl)]
  refine (u2_reads form.minor).bind ?_
  refine (u2_reads form.major).bind ?_
  refine (pool_reads fits.constants).bind ?_
  refine (u2_reads form.flags).bind ?_
  refine Reads.after_lookup fits.thisClass.className ?_
  refine Reads.after_lookup (className?_indexOf opens fits.superClass) ?_
  refine (counted_reads fits.interfaces interface).bind ?_
  refine (counted_reads fits.fields fun _ => member_reads opens).bind ?_
  refine (counted_reads fits.methods fun _ => member_reads opens).bind ?_
  exact (attributes_reads opens fits.attributes).map

namespace AttributeForm

def sourceFile? : AttributeForm → Option String
  | plain _ (.sourceFile name) => some name.text
  | _ => none

def signature? : AttributeForm → Option String
  | plain _ (.signature text) => some text.text
  | _ => none

def innerClasses? : AttributeForm → Option (List InnerClass)
  | plain _ (.innerClasses lines) => some (lines.map InnerClassForm.line)
  | _ => none

end AttributeForm

/-- Whether attributes say what some forms say: the last form of a kind counts, but annotations and
local variables are gathered. Only these are taken from the attributes in a `Code` attribute, and
nothing from one that is not recognised. -/
structure Attribute.Convey (attributes : List Attribute) (forms : List AttributeForm) : Prop where
  sourceFile : sourceFileOf attributes = (forms.filterMap AttributeForm.sourceFile?).getLast?
  signature : signatureOf attributes = (forms.filterMap AttributeForm.signature?).getLast?
  innerClasses : innerClassesOf attributes =
    (forms.filterMap AttributeForm.innerClasses?).getLast?.getD []
  synthetic : marksSynthetic attributes = true ↔
    ∃ name, AttributeForm.plain name .synthetic ∈ forms
  descriptors : attributes.flatMap Attribute.descriptors = forms.flatMap AttributeForm.descriptors
  localTypes : attributes.flatMap Attribute.localTypes = forms.flatMap AttributeForm.localTypes

structure MemberForm.Describes (form : MemberForm) (member : Member) : Prop where
  flags : member.flags = ⟨form.flags⟩
  name : member.name = form.name.text
  descriptor : member.descriptor = form.descriptor.text
  attributes : Attribute.Convey member.attributes form.attributes

structure ClassForm.Describes (form : ClassForm) (unit : ClassFile) : Prop where
  minor : unit.minor = form.minor
  major : unit.major = form.major
  pool : unit.pool = form.pool
  flags : unit.flags = ⟨form.flags⟩
  thisClass : unit.thisClass = form.thisClass.name
  superClass : unit.superClass = form.superClass.map ClassRef.name
  interfaces : unit.interfaces = form.interfaces.map ClassRef.name
  fields : List.Forall₂ MemberForm.Describes form.fields unit.fields
  methods : List.Forall₂ MemberForm.Describes form.methods unit.methods
  attributes : Attribute.Convey unit.attributes form.attributes

section Meaning

variable {forms : List AttributeForm}

theorem lastSome?_meaning {α : Type} {pick : Attribute → Option α}
    {pick' : AttributeForm → Option α} (same : ∀ form, pick form.meaning = pick' form) :
    lastSome? pick (forms.map AttributeForm.meaning) = (forms.filterMap pick').getLast? := by
  have picked : pick ∘ AttributeForm.meaning = pick' := funext same
  rw [lastSome?, ← List.getLast?_filterMap, List.filterMap_map, picked]

theorem meaning_eq_synthetic {form : AttributeForm} :
    form.meaning = .synthetic ↔ ∃ name, form = .plain name .synthetic := by
  constructor
  · intro marked
    cases form with
    | plain name body =>
      cases body <;> cases marked
      exact ⟨name, rfl⟩
    | code => cases marked
  · rintro ⟨name, rfl⟩
    rfl

theorem marksSynthetic_meaning :
    Attribute.marksSynthetic (forms.map AttributeForm.meaning) = true ↔
      ∃ name, AttributeForm.plain name .synthetic ∈ forms := by
  rw [Attribute.marksSynthetic, List.contains_iff_mem, List.mem_map]
  simp only [meaning_eq_synthetic]
  constructor
  · rintro ⟨_, member, name, rfl⟩
    exact ⟨name, member⟩
  · rintro ⟨name, member⟩
    exact ⟨_, member, name, rfl⟩

theorem convey_meaning (forms : List AttributeForm) :
    Attribute.Convey (forms.map AttributeForm.meaning) forms where
  sourceFile := by
    refine lastSome?_meaning fun form => ?_
    cases form with
    | plain name body => cases body <;> rfl
    | code => rfl
  signature := by
    refine lastSome?_meaning fun form => ?_
    cases form with
    | plain name body => cases body <;> rfl
    | code => rfl
  innerClasses := by
    rw [Attribute.innerClassesOf, lastSome?_meaning]
    intro form
    cases form with
    | plain name body => cases body <;> rfl
    | code => rfl
  synthetic := marksSynthetic_meaning
  descriptors := flatMap_meaning_descriptors forms
  localTypes := flatMap_meaning_localTypes forms

theorem describes_members (forms : List MemberForm) :
    List.Forall₂ MemberForm.Describes forms (forms.map MemberForm.meaning) := by
  rw [List.forall₂_map_right_iff, List.forall₂_same]
  exact fun form _ => ⟨rfl, rfl, rfl, convey_meaning form.attributes⟩

theorem describes_meaning (form : ClassForm) : form.Describes form.meaning where
  minor := rfl
  major := rfl
  pool := rfl
  flags := rfl
  thisClass := rfl
  superClass := rfl
  interfaces := rfl
  fields := describes_members form.fields
  methods := describes_members form.methods
  attributes := convey_meaning form.attributes

end Meaning

/-! ## A class with a method -/

namespace ClassForm.Sample

def constants : List ConstantForm :=
  [.utf8 "A", .classInfo 1, .utf8 "Signature", .utf8 "LB;", .long 7, .utf8 "LC;", .utf8 "Note",
   .utf8 "m", .utf8 "()V", .utf8 "Code", .utf8 "LocalVariableTable", .utf8 "Synthetic"]

def method : MemberForm where
  flags := 1
  name := ⟨9, "m"⟩
  descriptor := ⟨10, "()V"⟩
  attributes :=
    [.code 11 1 1 [0xB1] [⟨0, 1, 0, 0⟩]
      [.plain 3 (.signature ⟨4, "LB;"⟩), .plain 13 .synthetic,
       .plain 12 (.locals false [⟨0, 1, 9, ⟨7, "LC;"⟩, 0⟩])]]

def form : ClassForm where
  minor := 0
  major := 52
  constants := constants
  flags := 0x21
  thisClass := ⟨2, "A"⟩
  superClass := none
  interfaces := []
  fields := []
  methods := [method]
  attributes :=
    [.plain 3 (.signature ⟨7, "LC;"⟩), .plain 3 (.signature ⟨4, "LB;"⟩),
     .plain 8 (.unrecognised "Note" [1, 2, 3])]

theorem constants_fit : Pool.FormsFit constants where
  each := by
    intro form member
    simp only [constants, List.mem_cons, List.not_mem_nil, or_false] at member
    rcases member with rfl | rfl | rfl | rfl | rfl | rfl | rfl | rfl | rfl | rfl | rfl | rfl
    all_goals first
      | trivial
      | change (Utf8.encode _).length < 2 ^ 16
        decide +kernel
  few := by decide

theorem method_fits : method.Fits form.pool where
  name := rfl
  descriptor := rfl
  attributes := by
    refine ⟨by decide, List.forall_mem_singleton.mpr ?_⟩
    refine .code rfl ?_ (by decide) (by decide) ?_
    · simp only [listed, List.flatMap_cons, AttributeForm.encode]
      decide
    · refine List.forall_mem_cons.mpr ⟨.plain rfl (by decide) rfl, ?_⟩
      refine List.forall_mem_cons.mpr ⟨.plain rfl (by decide) trivial, ?_⟩
      refine List.forall_mem_singleton.mpr (.plain rfl (by decide) ⟨by decide, ?_⟩)
      exact List.forall_mem_singleton.mpr rfl

theorem form_fits : form.Fits where
  constants := constants_fit
  thisClass := ⟨⟨1, "A"⟩, rfl, rfl, rfl⟩
  superClass := nofun
  interfaces := ⟨by decide, nofun⟩
  fields := ⟨by decide, nofun⟩
  methods := ⟨by decide, List.forall_mem_singleton.mpr method_fits⟩
  attributes := by
    refine ⟨by decide, List.forall_mem_cons.mpr ⟨.plain rfl (by decide) rfl, ?_⟩⟩
    refine List.forall_mem_cons.mpr ⟨.plain rfl (by decide) rfl, ?_⟩
    refine List.forall_mem_singleton.mpr (.plain rfl (by decide) ?_)
    exact (by decide : "Note" ∉ BodyForm.recognised)

end ClassForm.Sample

/-- Whatever follows a class file, what it says is read from it. -/
theorem ofBytes_encode {form : ClassForm} (fits : form.Fits) (trailing : List UInt8) :
    ∃ unit, ClassFile.ofBytes (form.encode ++ trailing) = .ok unit ∧ form.Describes unit :=
  ⟨form.meaning, (classFile_reads fits).decode trailing, describes_meaning form⟩

/-- The attributes in the code of the method do not give it a signature and do not mark it. -/
theorem ofBytes_encode_sample :
    ∃ unit, ClassFile.ofBytes (ClassForm.Sample.form.encode ++ [0xFF]) = .ok unit ∧
      unit.signature = some "LB;" ∧
      ∃ method, unit.methods = [method] ∧ method.signature = none ∧
        method.markedSynthetic = false ∧ method.signatures = ["()V", "LC;"] := by
  obtain ⟨unit, read, describes⟩ := ofBytes_encode ClassForm.Sample.form_fits [0xFF]
  obtain ⟨method, _, described, rest, listed⟩ := List.forall₂_cons_left_iff.mp describes.methods
  cases List.forall₂_nil_left_iff.mp rest
  have signature : method.signature = none := described.attributes.signature
  refine ⟨unit, read, describes.attributes.signature, method, listed, signature, ?_, ?_⟩
  · rw [Bool.eq_false_iff, Member.markedSynthetic, Ne, described.attributes.synthetic]
    rintro ⟨name, member⟩
    cases List.mem_singleton.mp member
  · rw [Member.signatures, signature, described.descriptor, described.attributes.descriptors,
      described.attributes.localTypes]
    simp [ClassForm.Sample.method, AttributeForm.descriptors, AttributeForm.localTypes,
      BodyForm.descriptors, BodyForm.localTypes]

end Linkage
