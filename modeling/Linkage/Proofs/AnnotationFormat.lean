import Linkage.ClassFile.Attribute
import Linkage.Descriptor
import Linkage.Proofs.PoolFormat

/-!
# Annotations and their bytes

Values nest in each other, through arrays and through annotations. `ValueForm.Fits` keeps count of
how deep a value lies, and values that do not lie too deep are read back.
-/

namespace Linkage

open Decoder

inductive ValueForm
  | base (type : BaseType) (value : UInt16)
  | string (value : UInt16)
  | enum (type : TextRef) (constant : UInt16)
  | classLiteral (descriptor : TextRef)
  /-- An annotation: its type, and its values behind the indices of their names. -/
  | nested (type : TextRef) (values : List (UInt16 × ValueForm))
  | array (elements : List ValueForm)

namespace ValueForm

theorem sizeOf_named {name : UInt16} {value : ValueForm} {values : List (UInt16 × ValueForm)}
    (member : (name, value) ∈ values) : sizeOf value < sizeOf values := by
  have smaller := List.sizeOf_lt_of_mem member
  simp only [Prod.mk.sizeOf_spec] at smaller
  omega

-- Lists are written out and not left to `listed`, so that the recursion is seen to end.
def encode : ValueForm → List UInt8
  | base type value => type.letter.toUInt8 :: twoBytes value
  | string value => 's'.toUInt8 :: twoBytes value
  | enum type constant => 'e'.toUInt8 :: (twoBytes type.index ++ twoBytes constant)
  | classLiteral descriptor => 'c'.toUInt8 :: twoBytes descriptor.index
  | nested type values =>
      '@'.toUInt8 :: (twoBytes type.index ++ (twoBytes (UInt16.ofNat values.length)
        ++ values.flatMap fun value => twoBytes value.1 ++ encode value.2))
  | array elements =>
      '['.toUInt8 :: (twoBytes (UInt16.ofNat elements.length) ++ elements.flatMap encode)
decreasing_by
  · have := sizeOf_named ‹_›
    simp_wf
    omega
  · have := List.sizeOf_lt_of_mem ‹_›
    simp_wf
    omega

/-- The descriptors of annotation types and of enum and class values, in order. There is none for
the class literal of `void`. -/
def descriptors : ValueForm → List String
  | base _ _ | string _ => []
  | enum type _ => [type.text]
  | classLiteral descriptor => if descriptor.text = "V" then [] else [descriptor.text]
  | nested type values => type.text :: values.flatMap fun value => descriptors value.2
  | array elements => elements.flatMap descriptors
decreasing_by
  · have := sizeOf_named ‹_›
    simp_wf
    omega
  · have := List.sizeOf_lt_of_mem ‹_›
    simp_wf
    omega

inductive Fits (pool : Pool) : (depth : Nat) → ValueForm → Prop
  | base {depth : Nat} {type : BaseType} {value : UInt16} (shallow : depth ≤ Annotations.maxDepth) :
      Fits pool depth (base type value)
  | string {depth : Nat} {value : UInt16} (shallow : depth ≤ Annotations.maxDepth) :
      Fits pool depth (string value)
  | enum {depth : Nat} {type : TextRef} {constant : UInt16}
      (shallow : depth ≤ Annotations.maxDepth) (located : type.LiesIn pool) :
      Fits pool depth (enum type constant)
  | classLiteral {depth : Nat} {descriptor : TextRef} (shallow : depth ≤ Annotations.maxDepth)
      (located : descriptor.LiesIn pool) : Fits pool depth (classLiteral descriptor)
  | nested {depth : Nat} {type : TextRef} {values : List (UInt16 × ValueForm)}
      (shallow : depth ≤ Annotations.maxDepth) (located : type.LiesIn pool)
      (few : values.length < 2 ^ 16) (each : ∀ value ∈ values, Fits pool (depth + 2) value.2) :
      Fits pool depth (nested type values)
  | array {depth : Nat} {elements : List ValueForm} (shallow : depth ≤ Annotations.maxDepth)
      (few : elements.length < 2 ^ 16) (each : ∀ element ∈ elements, Fits pool (depth + 1) element) :
      Fits pool depth (array elements)

variable {pool : Pool} {depth : Nat} {form : ValueForm}

theorem Fits.shallow (fits : form.Fits pool depth) : depth ≤ Annotations.maxDepth := by
  cases fits <;> assumption

end ValueForm

structure AnnotationForm where
  type : TextRef
  values : List (UInt16 × ValueForm)

namespace AnnotationForm

def encode (form : AnnotationForm) : List UInt8 :=
  twoBytes form.type.index
    ++ listed (fun value : UInt16 × ValueForm => twoBytes value.1 ++ value.2.encode) form.values

def descriptors (form : AnnotationForm) : List String :=
  form.type.text :: form.values.flatMap fun value => value.2.descriptors

structure Fits (pool : Pool) (depth : Nat) (form : AnnotationForm) : Prop where
  located : form.type.LiesIn pool
  listable : Listable (fun value => value.2.Fits pool depth) form.values

end AnnotationForm

section Reading

variable {pool : Pool} {depth : Nat}

theorem annotation_reads {form : AnnotationForm} {value : Decoder (List String)}
    (fits : form.Fits pool depth)
    (values : ∀ inner : ValueForm, inner.Fits pool depth →
      value.Reads inner.encode inner.descriptors) :
    (Annotations.decoder pool value).Reads form.encode form.descriptors := by
  have named (inner : UInt16 × ValueForm) (fits : inner.2.Fits pool depth) :
      (skip 2 >>= fun _ => value).Reads (twoBytes inner.1 ++ inner.2.encode)
        inner.2.descriptors :=
    (skip_reads (twoBytes inner.1) rfl).bind (values inner.2 fits)
  exact (counted_reads fits.listable named).map.after_lookup fits.located.utf8

theorem base_reads {type : BaseType} {element nested : Decoder (List String)} {value : UInt16} :
    (Annotations.valueDecoder pool element nested).Reads
      (type.letter.toUInt8 :: twoBytes value) [] := by
  have skipped := (skip_reads (twoBytes value) rfl).map (f := fun _ => ([] : List String))
  cases type <;> exact skipped.after_tag

theorem valueDecoder_reads {form : ValueForm} {element nested : Decoder (List String)}
    (fits : form.Fits pool depth)
    (elements : ∀ inner : ValueForm, inner.Fits pool (depth + 1) →
      element.Reads inner.encode inner.descriptors)
    (values : ∀ inner : ValueForm, inner.Fits pool (depth + 2) →
      nested.Reads inner.encode inner.descriptors) :
    (Annotations.valueDecoder pool element nested).Reads form.encode form.descriptors := by
  cases fits with
  | base =>
    rw [ValueForm.encode, ValueForm.descriptors]
    exact base_reads
  | string =>
    rw [ValueForm.encode, ValueForm.descriptors]
    exact (skip_reads (twoBytes _) rfl).map.after_tag
  | enum _ located =>
    rw [ValueForm.encode, ValueForm.descriptors]
    exact ((skip_reads (twoBytes _) rfl).map.after_lookup located.utf8).after_tag
  | classLiteral _ located =>
    rw [ValueForm.encode, ValueForm.descriptors]
    exact (lookup_reads located.utf8).after_tag
  | @nested _ type inner _ located few each =>
    have fits : AnnotationForm.Fits pool (_ + 2) ⟨type, inner⟩ := ⟨located, few, each⟩
    have reads := annotation_reads fits values
    rw [ValueForm.encode, ValueForm.descriptors]
    exact reads.after_tag
  | @array _ items _ few each =>
    have reads := counted_reads ⟨few, each⟩ elements
    rw [ValueForm.encode, ValueForm.descriptors]
    exact reads.map.after_tag

/-- The levels that a value may take and its depth add up to the cap. The step goes down two levels,
since the values of a nested annotation lie two levels below it. -/
theorem value_reads (levels : Nat) {form : ValueForm} (fits : form.Fits pool depth)
    (cap : depth + levels = Annotations.maxDepth + 1) :
    (Annotations.value pool levels).Reads form.encode form.descriptors := by
  induction levels using Nat.twoStepInduction generalizing depth form with
  | zero =>
    have shallow := fits.shallow
    omega
  | one =>
    refine valueDecoder_reads fits ?_ ?_
    all_goals
      intro inner deeper
      have shallow := deeper.shallow
      omega
  | more levels nested elements =>
    exact valueDecoder_reads fits (fun _ deeper => elements deeper (by omega))
      (fun _ deeper => nested deeper (by omega))

/-! ## Annotations on declarations -/

theorem table_reads {forms : List AnnotationForm}
    (listable : Listable (AnnotationForm.Fits pool 1) forms) :
    (Annotations.table pool).Reads (listed AnnotationForm.encode forms)
      (forms.flatMap AnnotationForm.descriptors) := by
  have reads (form : AnnotationForm) (fits : form.Fits pool 1) :=
    annotation_reads fits fun _ fits => value_reads _ fits (Nat.add_comm 1 _)
  exact (counted_reads listable reads).map

def parameterTables (tables : List (List AnnotationForm)) : List UInt8 :=
  UInt8.ofNat tables.length :: tables.flatMap (listed AnnotationForm.encode)

theorem parameterTables_reads {tables : List (List AnnotationForm)} (few : tables.length < 2 ^ 8)
    (each : ∀ forms ∈ tables, Listable (AnnotationForm.Fits pool 1) forms) :
    (Annotations.parameterTables pool).Reads (parameterTables tables)
      (tables.flatMap fun forms => forms.flatMap AnnotationForm.descriptors) := by
  refine Reads.after_tag ?_
  rw [UInt8.toNat_ofNat_of_lt' few]
  exact (many_reads fun forms member => table_reads (each forms member)).map

theorem default_reads {form : ValueForm} (fits : form.Fits pool 0) :
    (Annotations.default pool).Reads form.encode form.descriptors :=
  value_reads _ fits (Nat.zero_add _)

end Reading

end Linkage
