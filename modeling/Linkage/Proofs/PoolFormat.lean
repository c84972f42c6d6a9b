import Linkage.Proofs.PoolNumbering
import Linkage.Proofs.Utf8

/-!
# Constant pools and their bytes

A `ConstantForm` is a constant with all that its bytes say. A pool keeps less of it, but what it keeps
is read back from the bytes, each constant in its slot.
-/

namespace Linkage

open Decoder

/-- A constant as the format has it. Fields are indices of slots unless their names say
otherwise. -/
inductive ConstantForm
  | utf8 (text : String)
  | integer (bits : UInt32)
  | float (bits : UInt32)
  | long (bits : UInt64)
  | double (bits : UInt64)
  | classInfo (name : UInt16)
  | string (text : UInt16)
  | fieldRef (owner nameAndType : UInt16)
  | methodRef (owner nameAndType : UInt16)
  | interfaceMethodRef (owner nameAndType : UInt16)
  | nameAndType (name descriptor : UInt16)
  | methodHandle (referenceKind : UInt8) (reference : UInt16)
  | methodType (descriptor : UInt16)
  | dynamic (bootstrapMethod nameAndType : UInt16)
  | invokeDynamic (bootstrapMethod nameAndType : UInt16)
  | moduleInfo (name : UInt16)
  | packageInfo (name : UInt16)
  deriving DecidableEq, Repr

namespace ConstantForm

def textBytes (text : String) : List UInt8 :=
  twoBytes (UInt16.ofNat (Utf8.encode text).length) ++ Utf8.encode text

def encode : ConstantForm → List UInt8
  | utf8 text => 1 :: textBytes text
  | integer bits => 3 :: fourBytes bits
  | float bits => 4 :: fourBytes bits
  | long bits => 5 :: eightBytes bits
  | double bits => 6 :: eightBytes bits
  | classInfo name => 7 :: twoBytes name
  | string text => 8 :: twoBytes text
  | fieldRef owner pair => 9 :: (twoBytes owner ++ twoBytes pair)
  | methodRef owner pair => 10 :: (twoBytes owner ++ twoBytes pair)
  | interfaceMethodRef owner pair => 11 :: (twoBytes owner ++ twoBytes pair)
  | nameAndType name descriptor => 12 :: (twoBytes name ++ twoBytes descriptor)
  | methodHandle referenceKind reference => 15 :: referenceKind :: twoBytes reference
  | methodType descriptor => 16 :: twoBytes descriptor
  | dynamic bootstrapMethod pair =>
      17 :: (twoBytes bootstrapMethod ++ twoBytes pair)
  | invokeDynamic bootstrapMethod pair =>
      18 :: (twoBytes bootstrapMethod ++ twoBytes pair)
  | moduleInfo name => 19 :: twoBytes name
  | packageInfo name => 20 :: twoBytes name

def constant : ConstantForm → Constant
  | utf8 text => .utf8 text
  | integer _ => .integer
  | float _ => .float
  | long _ => .long
  | double _ => .double
  | classInfo name => .classInfo name
  | string text => .string text
  | fieldRef owner pair => .fieldRef owner pair
  | methodRef owner pair => .methodRef owner pair
  | interfaceMethodRef owner pair => .interfaceMethodRef owner pair
  | nameAndType name descriptor => .nameAndType name descriptor
  | methodHandle referenceKind reference => .methodHandle referenceKind reference
  | methodType descriptor => .methodType descriptor
  | dynamic bootstrapMethod pair => .dynamic bootstrapMethod pair
  | invokeDynamic bootstrapMethod pair => .invokeDynamic bootstrapMethod pair
  | moduleInfo name => .moduleInfo name
  | packageInfo name => .packageInfo name

def Fits : ConstantForm → Prop
  | utf8 text => (Utf8.encode text).length < 2 ^ 16
  | _ => True

def slots : ConstantForm → List (Option Constant)
  | long bits => [some (long bits).constant, none]
  | double bits => [some (double bits).constant, none]
  | form => [some form.constant]

end ConstantForm

def Pool.ofForms (forms : List ConstantForm) : Pool :=
  ⟨(none :: forms.flatMap ConstantForm.slots).toArray⟩

def Pool.encodeForms (forms : List ConstantForm) : List UInt8 :=
  twoBytes (UInt16.ofNat (Pool.ofForms forms).size) ++ forms.flatMap ConstantForm.encode

structure Pool.FormsFit (forms : List ConstantForm) : Prop where
  each : ∀ form ∈ forms, form.Fits
  few : (Pool.ofForms forms).size < 2 ^ 16

namespace ConstantForm

theorem written {form : ConstantForm} (fits : form.Fits) : form.constant.Written form.encode := by
  cases form with
  | utf8 text => exact ⟨_, rfl, Utf8.encode text, fits, Utf8.decodeLossy_encode text, rfl⟩
  | _ => exact ⟨_, rfl, rfl⟩

theorem slots_eq (form : ConstantForm) : form.slots = form.constant.slots := by
  cases form <;> rfl

end ConstantForm

theorem Pool.exists_written {forms : List ConstantForm} (fit : ∀ form ∈ forms, form.Fits) :
    ∃ items : List WrittenConstant,
      items.flatMap WrittenConstant.bytes = forms.flatMap ConstantForm.encode ∧
        WrittenConstant.slots items = forms.flatMap ConstantForm.slots := by
  induction forms with
  | nil => exact ⟨[], rfl, rfl⟩
  | cons form forms ih =>
    obtain ⟨first, others⟩ := List.forall_mem_cons.mp fit
    obtain ⟨items, bytes, slots⟩ := ih others
    refine ⟨⟨form.constant, form.encode, ConstantForm.written first⟩ :: items, ?_, ?_⟩
    · rw [List.flatMap_cons, List.flatMap_cons, bytes]
    · rw [WrittenConstant.slots_cons, List.flatMap_cons, slots, form.slots_eq]

theorem pool_reads {forms : List ConstantForm} (fit : Pool.FormsFit forms) :
    Pool.decoder.Reads (Pool.encodeForms forms) (Pool.ofForms forms) := by
  obtain ⟨items, bytes, slots⟩ := Pool.exists_written fit.each
  have size : WrittenConstant.following items = (Pool.ofForms forms).size := by
    rw [← Pool.length_slots, slots, Pool.size, Pool.ofForms, List.size_toArray, List.length_cons]
  have reads := Pool.decoder_reads items (size ▸ fit.few)
  rwa [size, bytes, slots] at reads

/-! ## References into a pool -/

structure TextRef where
  index : UInt16
  text : String
  deriving DecidableEq, Repr

def TextRef.indexOf : Option TextRef → UInt16
  | some ref => ref.index
  | none => 0

def TextRef.LiesIn (pool : Pool) (ref : TextRef) : Prop :=
  pool.slots[ref.index.toNat]? = some (some (.utf8 ref.text))

structure ClassRef where
  index : UInt16
  name : String
  deriving DecidableEq, Repr

def ClassRef.indexOf : Option ClassRef → UInt16
  | some ref => ref.index
  | none => 0

def ClassRef.LiesIn (pool : Pool) (ref : ClassRef) : Prop :=
  ∃ name : TextRef, pool.slots[ref.index.toNat]? = some (some (.classInfo name.index)) ∧
    name.LiesIn pool ∧ name.text = ref.name

section References

variable {pool : Pool} {text : TextRef} {ref : ClassRef}

theorem TextRef.LiesIn.utf8 (located : text.LiesIn pool) :
    pool.utf8 text.index = .ok text.text := by
  unfold Pool.utf8 Pool.get
  rw [located]
  rfl

theorem ClassRef.LiesIn.className (located : ref.LiesIn pool) :
    pool.className ref.index = .ok ref.name := by
  obtain ⟨name, slotted, named, same⟩ := located
  unfold Pool.className Pool.get
  rw [slotted, ← same]
  exact named.utf8

theorem ofForms_zero (forms : List ConstantForm) :
    (Pool.ofForms forms).slots[0]? = some none := rfl

theorem ne_zero {index : UInt16} {constant : Constant} (opens : pool.slots[0]? = some none)
    (slotted : pool.slots[index.toNat]? = some (some constant)) : index ≠ 0 := by
  rintro rfl
  rw [show (0 : UInt16).toNat = 0 from rfl, opens] at slotted
  cases slotted

theorem utf8?_indexOf (opens : pool.slots[0]? = some none) {name : Option TextRef}
    (located : ∀ ref ∈ name, ref.LiesIn pool) :
    pool.utf8? (TextRef.indexOf name) = .ok (name.map TextRef.text) := by
  unfold Pool.utf8?
  cases name with
  | none => rfl
  | some ref =>
    have found := located ref rfl
    unfold TextRef.indexOf
    rw [if_neg (ne_zero opens found), found.utf8]
    rfl

theorem className?_indexOf (opens : pool.slots[0]? = some none) {name : Option ClassRef}
    (located : ∀ ref ∈ name, ref.LiesIn pool) :
    pool.className? (ClassRef.indexOf name) = .ok (name.map ClassRef.name) := by
  unfold Pool.className?
  cases name with
  | none => rfl
  | some ref =>
    have found := located ref rfl
    obtain ⟨_, slotted, -⟩ := found
    unfold ClassRef.indexOf
    rw [if_neg (ne_zero opens slotted), (located ref rfl).className]
    rfl

end References

end Linkage
