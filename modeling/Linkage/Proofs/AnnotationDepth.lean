import Linkage.Proofs.AttributeFormat

/-!
# How deep the values of annotations may lie

`ValueForm.depths` counts how deep a value and the values in it lie, and `ValueForm.Writable` leaves
the depth out of what it takes to write one. A decoder `Settles` values at some depth if it reads
those in which nothing lies too deep and refuses all others. The decoder of values settles them at
each depth, since it is left as many levels as the depth lacks to the cap: `value_settles`. From it
follows what becomes of whole attributes, `annotations_to_the_cap`.
-/

namespace Linkage

open Decoder

namespace ValueForm

def depths (depth : Nat) : ValueForm → List Nat
  | base _ _ | string _ | enum _ _ | classLiteral _ => [depth]
  | nested _ values => depth :: values.flatMap fun value => depths (depth + 2) value.2
  | array elements => depth :: elements.flatMap (depths (depth + 1))
termination_by form => sizeOf form
decreasing_by
  · have := sizeOf_named ‹_›
    simp_wf
    omega
  · have := List.sizeOf_lt_of_mem ‹_›
    simp_wf
    omega

/-- Whether a value has indices into a pool and counts that fit their fields, however deep it
lies. -/
inductive Writable (pool : Pool) : ValueForm → Prop
  | base {type : BaseType} {value : UInt16} : Writable pool (base type value)
  | string {value : UInt16} : Writable pool (string value)
  | enum {type : TextRef} {constant : UInt16} (located : type.LiesIn pool) :
      Writable pool (enum type constant)
  | classLiteral {descriptor : TextRef} (located : descriptor.LiesIn pool) :
      Writable pool (classLiteral descriptor)
  | nested {type : TextRef} {values : List (UInt16 × ValueForm)} (located : type.LiesIn pool)
      (few : values.length < 2 ^ 16) (each : ∀ value ∈ values, Writable pool value.2) :
      Writable pool (nested type values)
  | array {elements : List ValueForm} (few : elements.length < 2 ^ 16)
      (each : ∀ element ∈ elements, Writable pool element) : Writable pool (array elements)

variable {pool : Pool} {depth : Nat} {form : ValueForm}

theorem Writable.fits_iff (writable : form.Writable pool) :
    form.Fits pool depth ↔ ∀ inner ∈ form.depths depth, inner ≤ Annotations.maxDepth := by
  induction writable generalizing depth with
  | base =>
    rw [depths, List.forall_mem_singleton]
    exact ⟨Fits.shallow, .base⟩
  | string =>
    rw [depths, List.forall_mem_singleton]
    exact ⟨Fits.shallow, .string⟩
  | enum located =>
    rw [depths, List.forall_mem_singleton]
    exact ⟨Fits.shallow, fun shallow => .enum shallow located⟩
  | classLiteral located =>
    rw [depths, List.forall_mem_singleton]
    exact ⟨Fits.shallow, fun shallow => .classLiteral shallow located⟩
  | @nested type values located few _ ih =>
    rw [depths, List.forall_mem_cons, List.forall_mem_flatMap]
    constructor
    · rintro (_ | _ | _ | _ | ⟨shallow, -, -, each⟩)
      exact ⟨shallow, fun value member => (ih value member).mp (each value member)⟩
    · rintro ⟨shallow, each⟩
      exact .nested shallow located few fun value member =>
        (ih value member).mpr (each value member)
  | @array elements few _ ih =>
    rw [depths, List.forall_mem_cons, List.forall_mem_flatMap]
    constructor
    · rintro (_ | _ | _ | _ | _ | ⟨shallow, -, each⟩)
      exact ⟨shallow, fun element member => (ih element member).mp (each element member)⟩
    · rintro ⟨shallow, each⟩
      exact .array shallow few fun element member => (ih element member).mpr (each element member)

end ValueForm

namespace AnnotationForm

variable {pool : Pool} {depth : Nat} {form : AnnotationForm}

def depths (depth : Nat) (form : AnnotationForm) : List Nat :=
  form.values.flatMap fun value => value.2.depths depth

structure Writable (pool : Pool) (form : AnnotationForm) : Prop where
  located : form.type.LiesIn pool
  listable : Listable (fun value => value.2.Writable pool) form.values

theorem Writable.fits_iff (writable : form.Writable pool) :
    form.Fits pool depth ↔ ∀ inner ∈ form.depths depth, inner ≤ Annotations.maxDepth := by
  rw [depths, List.forall_mem_flatMap]
  constructor
  · intro fits value member
    exact (writable.listable.each value member).fits_iff.mp (fits.listable.each value member)
  · intro shallow
    refine ⟨writable.located, writable.listable.few, fun value member => ?_⟩
    exact (writable.listable.each value member).fits_iff.mpr (shallow value member)

theorem Writable.exists_unfit (writable : form.Writable pool) (unfit : ¬ form.Fits pool depth) :
    ∃ value ∈ form.values, ¬ value.2.Fits pool depth := by
  by_contra all
  push Not at all
  exact unfit ⟨writable.located, writable.listable.few, all⟩

end AnnotationForm

namespace Annotations

variable {pool : Pool} {depth : Nat}

def nestingFault : Fault := .limitExceeded "annotation nesting"

structure Settles (pool : Pool) (depth : Nat) (decoder : Decoder (List String)) : Prop where
  reads : ∀ form : ValueForm, form.Fits pool depth → decoder.Reads form.encode form.descriptors
  refuses : ∀ form : ValueForm, form.Writable pool → ¬ form.Fits pool depth →
    decoder.Refuses form.encode nestingFault

theorem Settles.reads_or_refuses {decoder : Decoder (List String)} {form : ValueForm}
    (settles : Settles pool depth decoder) (writable : form.Writable pool) :
    (∃ value, decoder.Reads form.encode value) ∨ decoder.Refuses form.encode nestingFault := by
  by_cases fits : form.Fits pool depth
  · exact .inl ⟨_, settles.reads form fits⟩
  · exact .inr (settles.refuses form writable fits)

theorem annotation_refuses {form : AnnotationForm} {value : Decoder (List String)}
    (writable : form.Writable pool) (unfit : ¬ form.Fits pool depth)
    (settles : Settles pool depth value) :
    (Annotations.decoder pool value).Refuses form.encode nestingFault := by
  obtain ⟨culprit, member, unfit⟩ := writable.exists_unfit unfit
  have name (inner : UInt16 × ValueForm) : (skip 2).Reads (twoBytes inner.1) () :=
    skip_reads (twoBytes inner.1) rfl
  have values : (counted (skip 2 >>= fun _ => value)).Refuses (listed (fun inner =>
      twoBytes inner.1 ++ inner.2.encode) form.values) nestingFault := by
    refine counted_refuses writable.listable.few (fun inner listed => ?_) ⟨culprit, member, ?_⟩
    · rcases settles.reads_or_refuses (writable.listable.each inner listed) with
        ⟨_, reads⟩ | refuses
      · exact .inl ⟨_, (name inner).bind reads⟩
      · exact .inr (refuses.after (name inner))
    · have deep := settles.refuses culprit.2 (writable.listable.each culprit member) unfit
      exact deep.after (name culprit)
  exact values.map.after_lookup writable.located.utf8

theorem valueDecoder_refuses {form : ValueForm} {element nested : Decoder (List String)}
    (writable : form.Writable pool) (shallow : depth ≤ maxDepth) (unfit : ¬ form.Fits pool depth)
    (elements : Settles pool (depth + 1) element) (values : Settles pool (depth + 2) nested) :
    (valueDecoder pool element nested).Refuses form.encode nestingFault := by
  cases writable with
  | base => exact absurd (.base shallow) unfit
  | string => exact absurd (.string shallow) unfit
  | enum located => exact absurd (.enum shallow located) unfit
  | classLiteral located => exact absurd (.classLiteral shallow located) unfit
  | @nested type inner located few each =>
    have writable : AnnotationForm.Writable pool ⟨type, inner⟩ := ⟨located, few, each⟩
    have refuses := annotation_refuses writable
      (fun fits => unfit (.nested shallow located few fits.listable.each)) values
    rw [ValueForm.encode]
    exact refuses.after_tag
  | @array items few each =>
    obtain ⟨culprit, member, deep⟩ : ∃ item ∈ items, ¬ item.Fits pool (depth + 1) := by
      by_contra all
      push Not at all
      exact unfit (.array shallow few all)
    have refuses : (counted element).Refuses (listed ValueForm.encode items) nestingFault :=
      counted_refuses few (fun item listed => elements.reads_or_refuses (each item listed))
        ⟨culprit, member, elements.refuses culprit (each culprit member) deep⟩
    rw [ValueForm.encode]
    exact refuses.map.after_tag

theorem tooDeep_settles (deep : maxDepth < depth) : Settles pool depth tooDeep where
  reads _ fits := absurd fits.shallow (Nat.not_le.mpr deep)
  refuses _ _ _ := refuses_throw

theorem value_settles (levels : Nat) (cap : depth + levels = maxDepth + 1) :
    Settles pool depth (value pool levels) where
  reads form fits := value_reads levels fits cap
  refuses form writable unfit := by
    induction levels using Nat.twoStepInduction generalizing depth form with
    | zero => exact refuses_throw
    | one =>
      exact valueDecoder_refuses writable (by omega) unfit (tooDeep_settles (by omega))
        (tooDeep_settles (by omega))
    | more levels nested elements =>
      have elements : Settles pool (depth + 1) (value pool (levels + 1)) :=
        ⟨fun form fits => value_reads _ fits (by omega), elements (by omega)⟩
      have nested : Settles pool (depth + 2) (value pool levels) :=
        ⟨fun form fits => value_reads _ fits (by omega), nested (by omega)⟩
      exact valueDecoder_refuses writable (by omega) unfit elements nested

end Annotations

/-! ## Annotations on declarations -/

section Declarations

variable {pool : Pool}

theorem table_refuses {forms : List AnnotationForm}
    (listable : Listable (AnnotationForm.Writable pool) forms)
    (deep : ∃ form ∈ forms, ¬ form.Fits pool 1) :
    (Annotations.table pool).Refuses (listed AnnotationForm.encode forms)
      Annotations.nestingFault := by
  have settles : Annotations.Settles pool 1 _ :=
    Annotations.value_settles Annotations.maxDepth (Nat.add_comm 1 _)
  obtain ⟨culprit, member, deep⟩ := deep
  have refuses : ∀ form ∈ forms, ¬ form.Fits pool 1 →
      (Annotations.decoder pool (Annotations.value pool Annotations.maxDepth)).Refuses form.encode
        Annotations.nestingFault :=
    fun form member unfit =>
      Annotations.annotation_refuses (listable.each form member) unfit settles
  refine Refuses.map (counted_refuses listable.few (fun form member => ?_)
    ⟨culprit, member, refuses culprit member deep⟩)
  by_cases fits : form.Fits pool 1
  · exact .inl ⟨_, annotation_reads fits settles.reads⟩
  · exact .inr (refuses form member fits)

theorem parameterTables_refuses {tables : List (List AnnotationForm)} (few : tables.length < 2 ^ 8)
    (each : ∀ forms ∈ tables, Listable (AnnotationForm.Writable pool) forms)
    (deep : ∃ forms ∈ tables, ∃ form ∈ forms, ¬ form.Fits pool 1) :
    (Annotations.parameterTables pool).Refuses (parameterTables tables)
      Annotations.nestingFault := by
  obtain ⟨culprit, member, deep⟩ := deep
  refine Refuses.after_tag ?_
  rw [UInt8.toNat_ofNat_of_lt' few]
  refine Refuses.map (many_refuses (fun forms member => ?_)
    ⟨culprit, member, table_refuses (each culprit member) deep⟩)
  by_cases fits : ∀ form ∈ forms, form.Fits pool 1
  · exact .inl ⟨_, table_reads ⟨(each forms member).few, fits⟩⟩
  · push Not at fits
    exact .inr (table_refuses (each forms member) fits)

end Declarations

namespace BodyForm

def depths : BodyForm → List Nat
  | annotations _ forms => forms.flatMap (AnnotationForm.depths 1)
  | parameterAnnotations _ tables =>
      tables.flatMap fun forms => forms.flatMap (AnnotationForm.depths 1)
  | annotationDefault value => value.depths 0
  | _ => []

def HoldsAnnotations (pool : Pool) : BodyForm → Prop
  | annotations _ forms => Listable (AnnotationForm.Writable pool) forms
  | parameterAnnotations _ tables =>
      tables.length < 2 ^ 8 ∧ ∀ forms ∈ tables, Listable (AnnotationForm.Writable pool) forms
  | annotationDefault value => value.Writable pool
  | _ => False

variable {pool : Pool} {form : BodyForm}

theorem fits_iff (holds : form.HoldsAnnotations pool) :
    form.Fits pool ↔ ∀ depth ∈ form.depths, depth ≤ Annotations.maxDepth := by
  have listable_iff {forms : List AnnotationForm}
      (listable : Listable (AnnotationForm.Writable pool) forms) :
      Listable (AnnotationForm.Fits pool 1) forms ↔
        ∀ form ∈ forms, ∀ depth ∈ form.depths 1, depth ≤ Annotations.maxDepth := by
    constructor
    · exact fun fits form member => (listable.each form member).fits_iff.mp (fits.each form member)
    · exact fun shallow => ⟨listable.few, fun form member =>
        (listable.each form member).fits_iff.mpr (shallow form member)⟩
  cases form with
  | annotations _ forms =>
    rw [Fits, depths, List.forall_mem_flatMap]
    exact listable_iff holds
  | parameterAnnotations _ tables =>
    simp only [Fits, depths, List.forall_mem_flatMap, holds.1, true_and]
    exact forall₂_congr fun forms member => listable_iff (holds.2 forms member)
  | annotationDefault value => exact ValueForm.Writable.fits_iff holds
  | _ => exact holds.elim

theorem body_reads (holds : form.HoldsAnnotations pool) (fits : form.Fits pool) :
    (Attribute.body pool form.kind).Reads form.encode (.annotations form.descriptors) := by
  cases form with
  | annotations _ forms => exact (table_reads fits).map
  | parameterAnnotations _ tables => exact (parameterTables_reads fits.1 fits.2).map
  | annotationDefault value => exact (default_reads fits).map
  | _ => exact holds.elim

theorem body_refuses (holds : form.HoldsAnnotations pool) (unfit : ¬ form.Fits pool) :
    (Attribute.body pool form.kind).Refuses form.encode Annotations.nestingFault := by
  cases form with
  | annotations _ forms =>
    have deep : ∃ form ∈ forms, ¬ form.Fits pool 1 := by
      by_contra all
      push Not at all
      exact unfit ⟨holds.few, all⟩
    exact (table_refuses holds deep).map
  | parameterAnnotations _ tables =>
    have deep : ∃ forms ∈ tables, ∃ form ∈ forms, ¬ form.Fits pool 1 := by
      by_contra all
      push Not at all
      exact unfit ⟨holds.1, fun forms member =>
        ⟨(holds.2 forms member).few, all forms member⟩⟩
    exact (parameterTables_refuses holds.1 holds.2 deep).map
  | annotationDefault value =>
    have settles : Annotations.Settles pool 0 (Annotations.default pool) :=
      Annotations.value_settles _ (Nat.zero_add _)
    exact (settles.refuses value holds unfit).map
  | _ => exact holds.elim

end BodyForm

section Attributes

variable {pool : Pool} {name : UInt16} {form : BodyForm}

theorem rows_passed {bytes part : List UInt8} {kind : AttributeKind} {found : Attribute}
    (header : (Attribute.header pool).Reads bytes (kind, part))
    (content : Attribute.content pool kind part = .ok found) (count : Nat)
    (before : List Attribute) (pos : Nat) (trailing : List UInt8) :
    Attribute.rows pool (count + 1) before ⟨pos, bytes ++ trailing⟩ =
      Attribute.rows pool count (found :: before) ⟨pos + bytes.length, trailing⟩ := by
  rw [Attribute.rows_succ]
  exact (bind_of_ok (header pos trailing)).trans (lift_bind_of_ok content)

/-- Annotations and defaults of any shape are read to the end, with all their descriptors in order,
if no value in them lies deeper than 64 levels, and otherwise the attribute is refused. -/
theorem annotations_to_the_cap (named : TextRef.LiesIn pool ⟨name, form.name⟩)
    (short : form.encode.length < 2 ^ 32) (holds : form.HoldsAnnotations pool) :
    ((∀ depth ∈ form.depths, depth ≤ 64) →
      (Attribute.body pool form.kind).Reads form.encode (.annotations form.descriptors) ∧
      ∀ count before pos trailing,
        Attribute.rows pool (count + 1) before
            ⟨pos, (AttributeForm.plain name form).encode ++ trailing⟩ =
          Attribute.rows pool count (.annotations form.descriptors :: before)
            ⟨pos + (AttributeForm.plain name form).encode.length, trailing⟩) ∧
    ((∃ depth ∈ form.depths, 64 < depth) →
      (Attribute.body pool form.kind).Refuses form.encode (.limitExceeded "annotation nesting") ∧
      ∀ count before, (Attribute.rows pool (count + 1) before).Refuses
        (AttributeForm.plain name form).encode (.limitExceeded "annotation nesting")) := by
  have kind : AttributeKind.ofName form.name = form.kind := by
    cases form with
    | annotations visible _ | parameterAnnotations visible _ => cases visible <;> rfl
    | annotationDefault => rfl
    | _ => exact holds.elim
  have header : (Attribute.header pool).Reads (AttributeForm.plain name form).encode
      (form.kind, form.encode) := by
    rw [AttributeForm.encode, ← kind]
    exact header_reads named short
  have content (found : Except Fault Attribute)
      (decoded : decode (Attribute.body pool form.kind) form.encode = found) :
      Attribute.content pool form.kind form.encode = found :=
    (if_neg (kind_ne_code form)).trans decoded
  constructor
  · intro shallow
    have reads := form.body_reads holds ((BodyForm.fits_iff holds).mpr shallow)
    exact ⟨reads, rows_passed header (content _ reads.decode_all)⟩
  · rintro ⟨depth, member, deep⟩
    have refuses := form.body_refuses holds fun fits =>
      absurd ((BodyForm.fits_iff holds).mp fits depth member) (Nat.not_le.mpr deep)
    refine ⟨refuses, fun count before pos trailing => ?_⟩
    rw [Attribute.rows_succ]
    exact ⟨_, (bind_of_ok (header pos trailing)).trans
      (lift_bind_of_error (content _ refuses.decode))⟩

end Attributes

/-! ## A staircase -/

namespace Staircase

def pool : Pool := ⟨#[none, some (.utf8 "RuntimeVisibleAnnotations"), some (.utf8 "LA;")]⟩

/-- Annotations and arrays in turn. Each step goes down three levels. -/
def value (innermost : ValueForm) : (steps : Nat) → ValueForm
  | 0 => innermost
  | steps + 1 => .nested ⟨2, "LA;"⟩ [(0, .array [value innermost steps])]

/-- The values of an annotation lie at depth 1, so 21 steps lead down to the cap. -/
def body (innermost : ValueForm) : BodyForm :=
  .annotations true [⟨⟨2, "LA;"⟩, [(0, value innermost 21)]⟩]

variable {innermost : ValueForm} {steps depth inner : Nat}

theorem value_writable (writable : innermost.Writable pool) :
    (value innermost steps).Writable pool := by
  induction steps with
  | zero => exact writable
  | succ steps ih =>
    have array : ValueForm.Writable pool (.array [value innermost steps]) :=
      .array (by simp) (by simpa using ih)
    exact .nested rfl (by simp) (by simpa using array)

theorem length_value :
    (value innermost steps).encode.length = 10 * steps + innermost.encode.length := by
  induction steps with
  | zero => simp [value]
  | succ steps ih =>
    simp [value, ValueForm.encode, twoBytes, ih]
    omega

theorem mem_depths_value : inner ∈ (value innermost steps).depths depth ↔
    (∃ step < steps, inner = depth + 3 * step ∨ inner = depth + 3 * step + 2) ∨
      inner ∈ innermost.depths (depth + 3 * steps) := by
  induction steps generalizing depth with
  | zero => simp [value]
  | succ steps ih =>
    have next : depth + 2 + 1 + 3 * steps = depth + 3 * (steps + 1) := by omega
    simp only [value, ValueForm.depths, List.flatMap_cons, List.flatMap_nil, List.append_nil,
      List.mem_cons, ih, next]
    constructor
    · rintro (rfl | rfl | ⟨step, within, here⟩ | below)
      · exact .inl ⟨0, by omega⟩
      · exact .inl ⟨0, by omega⟩
      · exact .inl ⟨step + 1, by omega⟩
      · exact .inr below
    · rintro (⟨step, within, here⟩ | below)
      · cases step with
        | zero => omega
        | succ step => exact .inr (.inr (.inl ⟨step, by omega⟩))
      · exact .inr (.inr (.inr below))

theorem holds (writable : innermost.Writable pool) : (body innermost).HoldsAnnotations pool :=
  ⟨by simp, by
    simpa using ⟨rfl, by simp, by simpa using value_writable writable⟩⟩

theorem length_encode :
    (body innermost).encode.length = 218 + innermost.encode.length := by
  simp [body, BodyForm.encode, AnnotationForm.encode, listed, twoBytes, length_value]
  omega

theorem mem_depths_body : inner ∈ (body innermost).depths ↔
    (∃ step < 21, inner = 1 + 3 * step ∨ inner = 1 + 3 * step + 2) ∨
      inner ∈ innermost.depths 64 := by
  simp [body, BodyForm.depths, AnnotationForm.depths, mem_depths_value]

end Staircase

/-- A number at the foot of the staircase is read, and one in an array there is refused. -/
theorem annotations_to_the_cap_staircase :
    TextRef.LiesIn Staircase.pool ⟨1, "RuntimeVisibleAnnotations"⟩ ∧
    (Attribute.body Staircase.pool .annotations).Reads
      (Staircase.body (.base .int 0)).encode
      (.annotations (Staircase.body (.base .int 0)).descriptors) ∧
    (Attribute.body Staircase.pool .annotations).Refuses
      (Staircase.body (.array [.base .int 0])).encode (.limitExceeded "annotation nesting") := by
  have named : TextRef.LiesIn Staircase.pool ⟨1, "RuntimeVisibleAnnotations"⟩ := rfl
  have writable : ValueForm.Writable Staircase.pool (.array [.base .int 0]) :=
    .array (by simp) (by simpa using .base)
  have short (innermost : ValueForm) (small : innermost.encode.length < 10) :
      (Staircase.body innermost).encode.length < 2 ^ 32 := by
    rw [Staircase.length_encode]
    omega
  refine ⟨named, ?_, ?_⟩
  · have atCap := @annotations_to_the_cap Staircase.pool 1 (Staircase.body (.base .int 0)) named
      (short _ (by simp [ValueForm.encode, twoBytes])) (Staircase.holds .base)
    refine (atCap.1 fun depth member => ?_).1
    rw [Staircase.mem_depths_body, ValueForm.depths] at member
    simp only [List.mem_singleton] at member
    omega
  · have beyond := @annotations_to_the_cap Staircase.pool 1
      (Staircase.body (.array [.base .int 0])) named
      (short _ (by simp [ValueForm.encode, twoBytes])) (Staircase.holds writable)
    exact (beyond.2 ⟨65, by simp [Staircase.mem_depths_body, ValueForm.depths], by omega⟩).1

end Linkage
