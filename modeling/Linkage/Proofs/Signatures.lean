import Linkage.ClassFile.References
import Linkage.Proofs.Descriptors
import Linkage.Signature

/-!
# Descriptors as signatures

As long as no mark of generic types stands in its class names, a descriptor is a signature too. Both
readers then find the same classes in it, in the same order, and so does the reader of class constants
in the descriptor of an array: `descriptor_isSignature`.
-/

namespace Linkage

namespace Signature

namespace Reading

variable {reading next final : Reading} {text text' : List Char} {part : Part}
  {after following : List Part} {found : List String}

def Takes (reading : Reading) (text : List Char) (next : Reading) : Prop :=
  ∀ rest, reading.run (text ++ rest) = next.run rest

theorem takes_nil (reading : Reading) : reading.Takes [] reading := fun _ => rfl

theorem takes_step {c : Char} (stepped : reading.step c = some next) : reading.Takes [c] next := by
  intro rest
  rw [List.singleton_append, run, stepped]

theorem Takes.append (first : reading.Takes text next) (second : next.Takes text' final) :
    reading.Takes (text ++ text') final := by
  intro rest
  rw [List.append_assoc, first, second]

theorem Takes.cons {c : Char} (stepped : reading.step c = some next)
    (others : next.Takes text final) : reading.Takes (c :: text) final :=
  (takes_step stepped).append others

theorem classNames?_of_takes (takes : Takes ⟨[.whole], []⟩ text final)
    (ends : final.mayEnd = true) : classNames? text = some final.found.reverse := by
  have ran := takes []
  rw [List.append_nil] at ran
  rw [classNames?, ran, run]
  exact if_pos ends

/-! ## Class names -/

theorem plain_of_unmarked {c : Char} (unmarked : isDelimiter c = false) :
    c ≠ ';' ∧ c ≠ '<' ∧ c ≠ '>' ∧ c ≠ '.' ∧ c ≠ ':' := by
  simpa [isDelimiter, and_assoc] using unmarked

theorem takes_className {name : List Char} (unmarked : ∀ c ∈ name, isDelimiter c = false)
    (before : List Char) : Takes ⟨.className before :: after, found⟩ name
      ⟨.className (name.reverse ++ before) :: after, found⟩ := by
  induction name generalizing before with
  | nil => exact takes_nil _
  | cons c name ih =>
    rw [List.forall_mem_cons] at unmarked
    rw [List.reverse_cons, List.append_assoc]
    apply Takes.cons _ (ih unmarked.2 (c :: before))
    simp [step, plain_of_unmarked unmarked.1, unmarked.1]

theorem takes_segment {name : List Char} (notEmpty : name ≠ [])
    (unmarked : ∀ c ∈ name, isDelimiter c = false) (before : List Char) :
    Takes ⟨.classSegment before :: after, found⟩ name
      ⟨.className (name.reverse ++ before) :: after, found⟩ := by
  obtain ⟨c, rest, rfl⟩ := List.exists_cons_of_ne_nil notEmpty
  rw [List.forall_mem_cons] at unmarked
  have opens : step ⟨.classSegment before :: after, found⟩ c =
      some ⟨.className (c :: before) :: after, found⟩ := by
    simp [step, unmarked.1]
  rw [List.reverse_cons, List.append_assoc]
  exact (takes_className unmarked.2 (c :: before)).cons opens

theorem takes_class {name : String} (notEmpty : name ≠ "")
    (unmarked : ∀ c ∈ name.toList, isDelimiter c = false) :
    Takes ⟨.classSegment [] :: after, found⟩ (name.toList ++ [';']) ⟨after, name :: found⟩ := by
  have notNil : name.toList ≠ [] := by simpa using notEmpty
  apply (takes_segment notNil unmarked []).append
  apply takes_step
  simp [step]

/-- The characters that open something else than a type, where other things may stand. -/
def openers : List Char := ['<', '(', ')', 'V']

def LetsIn (part : Part) (after following : List Part) : Prop :=
  ∀ c ∉ openers, ∀ found, step ⟨part :: after, found⟩ c = openType following found c

theorem letsIn_type : LetsIn .type after after := fun _ _ _ => rfl

theorem letsIn_whole : LetsIn .whole after (.types :: after) := by
  intro c noOpener found
  simp only [openers, List.mem_cons, not_or] at noOpener
  simp [step, openBody, noOpener]

theorem letsIn_parameters : LetsIn .parameters after (.parameters :: after) := by
  intro c noOpener found
  simp only [openers, List.mem_cons, not_or] at noOpener
  simp [step, noOpener]

theorem letsIn_result : LetsIn .result after (.thrown :: after) := by
  intro c noOpener found
  simp only [openers, List.mem_cons, not_or] at noOpener
  simp [step, noOpener]

end Reading

end Signature

def Unmarked (name : String) : Prop := ∀ mark ∈ ['<', '>', '.', ':'], mark ∉ name.toList

theorem Unmarked.isDelimiter {name : String} (unmarked : Unmarked name)
    (closed : ';' ∉ name.toList) : ∀ c ∈ name.toList, Signature.isDelimiter c = false := by
  intro c member
  have other {mark : Char} (absent : mark ∉ name.toList) : c ≠ mark :=
    fun same => absent (same ▸ member)
  simp only [Unmarked, List.forall_mem_cons] at unmarked
  simp [Signature.isDelimiter, other closed, other unmarked.1, other unmarked.2.1,
    other unmarked.2.2.1, other unmarked.2.2.2.1]

open Signature.Reading

variable {part : Signature.Part} {after following : List Signature.Part} {found : List String}

namespace FieldType

variable {type : FieldType}

def Unmarked (type : FieldType) : Prop := ∀ name ∈ type.className?, Linkage.Unmarked name

theorem takes_descriptor (named : type.element.Named) (unmarked : type.Unmarked)
    (letsIn : LetsIn part after following) :
    Takes ⟨part :: after, found⟩ type.descriptor ⟨following, type.className?.toList ++ found⟩ := by
  obtain ⟨dimensions, element⟩ := type
  induction dimensions generalizing part after following with
  | zero =>
    cases element with
    | base base =>
      apply takes_step
      cases base <;> exact letsIn _ (by decide) found
    | object name =>
      apply Takes.cons (letsIn 'L' (by decide) found)
      exact takes_class named.1 ((unmarked name rfl).isDelimiter named.2)
  | succ dimensions ih =>
    -- Behind a bracket the rest stands where any type may stand.
    exact (ih letsIn_type named unmarked).cons (letsIn '[' (by decide) found)

theorem classNames_descriptor {text : String} (read : ofDescriptor text = .ok type)
    (unmarked : type.Unmarked) : Signature.classNames text = .ok type.className?.toList := by
  obtain ⟨descriptor, named⟩ := ofDescriptor_eq_ok read
  have takes : Takes ⟨[.whole], []⟩ text.toList ⟨[.types], type.className?.toList ++ []⟩ :=
    descriptor ▸ takes_descriptor named unmarked letsIn_whole
  rw [Signature.classNames, classNames?_of_takes takes rfl]
  cases type.className? <;> rfl

end FieldType

namespace MethodType

variable {type : MethodType}

def Unmarked (type : MethodType) : Prop := ∀ name ∈ type.classNames, Linkage.Unmarked name

theorem takes_parameters {parameters : List FieldType}
    (named : ∀ parameter ∈ parameters, parameter.element.Named)
    (unmarked : ∀ parameter ∈ parameters, parameter.Unmarked) (found : List String) :
    Takes ⟨.parameters :: after, found⟩ (parameters.flatMap FieldType.descriptor)
      ⟨.parameters :: after, (parameters.filterMap FieldType.className?).reverse ++ found⟩ := by
  induction parameters generalizing found with
  | nil => exact takes_nil _
  | cons first parameters ih =>
    rw [List.forall_mem_cons] at named unmarked
    rw [List.flatMap_cons]
    apply (FieldType.takes_descriptor named.1 unmarked.1 letsIn_parameters).append
    cases className : first.className? with
    | none =>
      rw [List.filterMap_cons_none className]
      exact ih named.2 unmarked.2 found
    | some name =>
      rw [List.filterMap_cons_some className, List.reverse_cons, List.append_assoc]
      exact ih named.2 unmarked.2 (name :: found)

theorem takes_result {result : Option FieldType} (named : ∀ type ∈ result, type.element.Named)
    (unmarked : ∀ type ∈ result, type.Unmarked) :
    Takes ⟨.result :: after, found⟩ (resultDescriptor result)
      ⟨.thrown :: after, (result.bind FieldType.className?).toList ++ found⟩ := by
  cases result with
  | none => exact takes_step rfl
  | some type => exact FieldType.takes_descriptor (named type rfl) (unmarked type rfl) letsIn_result

theorem takes_descriptor (named : ∀ parameter ∈ type.parameters, parameter.element.Named)
    (namedResult : ∀ result ∈ type.result, result.element.Named) (unmarked : type.Unmarked) :
    Takes ⟨[.whole], []⟩ type.descriptor ⟨[.thrown], type.classNames.reverse⟩ := by
  have parameters : ∀ parameter ∈ type.parameters, parameter.Unmarked := by
    intro parameter listed name given
    exact unmarked name (List.mem_append_left _ (List.mem_filterMap.mpr ⟨parameter, listed, given⟩))
  have result : ∀ result ∈ type.result, result.Unmarked := by
    intro result listed name given
    have found := Option.bind_eq_some_iff.mpr ⟨result, listed, given⟩
    exact unmarked name (List.mem_append_right _ (Option.mem_toList.mpr found))
  have reversed : type.classNames.reverse = (type.result.bind FieldType.className?).toList ++
      ((type.parameters.filterMap FieldType.className?).reverse ++ []) := by
    rw [classNames, List.reverse_append, List.append_nil]
    cases type.result.bind FieldType.className? <;> rfl
  rw [reversed, descriptor, List.cons_append]
  apply Takes.cons rfl
  apply (takes_parameters named parameters []).append
  exact (takes_result namedResult result).cons rfl

theorem classNames_descriptor {text : String} (read : ofDescriptor text = .ok type)
    (unmarked : type.Unmarked) : Signature.classNames text = .ok type.classNames := by
  obtain ⟨descriptor, named, namedResult⟩ := ofDescriptor_eq_ok read
  have takes := descriptor ▸ takes_descriptor named namedResult unmarked
  rw [Signature.classNames, classNames?_of_takes takes rfl, List.reverse_reverse]

end MethodType

theorem classOfConstant_of_array {text : String} {type : FieldType}
    (read : FieldType.ofDescriptor text = .ok type) (array : text.toList.head? = some '[') :
    classOfConstant text = .ok type.className? := by
  have opens : text.startsWith "[" = true := by
    obtain ⟨rest, shape⟩ := List.head?_eq_some_iff.mp array
    rw [String.startsWith_string_iff, shape]
    exact ⟨rest, rfl⟩
  rw [classOfConstant, if_pos opens, read]
  rfl

/-- What is read as a descriptor without marks of generic types can be read as a signature, which
names the classes of the descriptor, parameters first and repeated as they are. A class constant with
the descriptor of an array stands for the same class, or for none if there is none. -/
theorem descriptor_isSignature (text : String) :
    (∀ type, FieldType.ofDescriptor text = .ok type → type.Unmarked →
      Signature.classNames text = .ok type.className?.toList ∧
      (text.toList.head? = some '[' → classOfConstant text = .ok type.className?)) ∧
    ∀ type, MethodType.ofDescriptor text = .ok type → type.Unmarked →
      Signature.classNames text = .ok type.classNames := by
  refine ⟨fun type read unmarked => ⟨?_, ?_⟩, fun type read unmarked => ?_⟩
  · exact FieldType.classNames_descriptor read unmarked
  · exact classOfConstant_of_array read
  · exact MethodType.classNames_descriptor read unmarked

/-- Brackets of all other kinds may stand in class names. -/
theorem descriptor_isSignature_brackets :
    (FieldType.ofDescriptor "[[La)[/b;" = .ok ⟨2, .object "a)[/b"⟩ ∧
      Signature.classNames "[[La)[/b;" = .ok ["a)[/b"] ∧
      classOfConstant "[[La)[/b;" = .ok (some "a)[/b")) ∧
    (MethodType.ofDescriptor "(La);I[La);)Lb;" =
        .ok ⟨[⟨0, .object "a)"⟩, ⟨0, .base .int⟩, ⟨1, .object "a)"⟩], some ⟨0, .object "b"⟩⟩ ∧
      Signature.classNames "(La);I[La);)Lb;" = .ok ["a)", "a)", "b"]) := by
  have array : FieldType.ofDescriptor "[[La)[/b;" = .ok ⟨2, .object "a)[/b"⟩ :=
    FieldType.ofDescriptor_eq_ok_iff.mpr ⟨⟨by decide, by decide⟩, by decide⟩
  have method : MethodType.ofDescriptor "(La);I[La);)Lb;" =
      .ok ⟨[⟨0, .object "a)"⟩, ⟨0, .base .int⟩, ⟨1, .object "a)"⟩], some ⟨0, .object "b"⟩⟩ := by
    refine MethodType.ofDescriptor_eq_ok_iff.mpr ⟨⟨?_, ?_⟩, by decide⟩
    · simp [ElementType.Named]
    · simp [ElementType.Named]
  have fields := (descriptor_isSignature _).1 _ array fun name named => by
    cases named
    simp [Unmarked]
  have unmarked : ∀ name ∈ ["a)", "a)", "b"], Unmarked name := by simp [Unmarked]
  have methods := (descriptor_isSignature _).2 _ method unmarked
  exact ⟨⟨array, fields.1, fields.2 (by decide)⟩, method, methods⟩

end Linkage
