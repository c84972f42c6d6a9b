import Linkage.Proofs.Pieces
import Linkage.Proofs.Signatures

/-!
# Generic signatures and their text

A `SignatureForm` is a generic signature of a class, a method or a field. The classes found in its
text are the ones that it is made of, in the order in which they end.
-/

namespace Linkage

/-- A name without the characters that have a meaning in signatures. -/
structure Identifier where
  text : String
  notEmpty : text ≠ ""
  plain : ∀ c ∈ ['.', ';', '[', '/', '<', '>', ':'], c ∉ text.toList

mutual

inductive ReferenceForm
  | object (type : ClassTypeForm)
  | variable (name : Identifier)
  | array (element : TypeForm)

inductive TypeForm
  | base (type : BaseType)
  | reference (type : ReferenceForm)

/-- A class: its package, the outermost class and those nested in it, down to the class itself. -/
inductive ClassTypeForm
  | mk (package : List Identifier) (outermost : SimpleClassForm) (nested : List SimpleClassForm)

inductive SimpleClassForm
  | mk (name : Identifier) (arguments : List ArgumentForm)

/-- A type argument: a type, a wildcard bounded from above or from below, or any type. -/
inductive ArgumentForm
  | exactly (type : ReferenceForm)
  | upTo (bound : ReferenceForm)
  | downTo (bound : ReferenceForm)
  | any

end

def SimpleClassForm.name : SimpleClassForm → Identifier
  | mk name _ => name

def ClassTypeForm.binaryName : ClassTypeForm → String
  | mk package outermost nested =>
      "$".intercalate ("/".intercalate ((package ++ [outermost.name]).map Identifier.text)
        :: nested.map fun type => type.name.text)

def ClassTypeForm.qualified (package : List Identifier) (outermost : SimpleClassForm) : List Char :=
  package.flatMap (fun segment => segment.text.toList ++ ['/']) ++ outermost.name.text.toList

mutual

def ReferenceForm.text : ReferenceForm → List Char
  | .object type => 'L' :: type.text
  | .variable name => 'T' :: (name.text.toList ++ [';'])
  | .array element => '[' :: element.text
termination_by structural type => type

def TypeForm.text : TypeForm → List Char
  | .base type => [type.letter]
  | .reference type => type.text
termination_by structural type => type

def ClassTypeForm.text : ClassTypeForm → List Char
  | .mk package outermost nested =>
      ClassTypeForm.qualified package outermost
        ++ (outermost.arguments ++ (SimpleClassForm.suffixes nested ++ [';']))
termination_by structural type => type

def SimpleClassForm.arguments : SimpleClassForm → List Char
  | .mk _ [] => []
  | .mk _ (first :: rest) => '<' :: (first.text ++ ArgumentForm.texts rest ++ ['>'])
termination_by structural type => type

def SimpleClassForm.suffixes : List SimpleClassForm → List Char
  | [] => []
  | type :: types =>
      '.' :: (type.name.text.toList ++ (type.arguments ++ SimpleClassForm.suffixes types))
termination_by structural types => types

def ArgumentForm.text : ArgumentForm → List Char
  | .exactly type => type.text
  | .upTo bound => '+' :: bound.text
  | .downTo bound => '-' :: bound.text
  | .any => ['*']
termination_by structural argument => argument

def ArgumentForm.texts : List ArgumentForm → List Char
  | [] => []
  | argument :: arguments => argument.text ++ ArgumentForm.texts arguments
termination_by structural arguments => arguments

end

mutual

/-- The classes in a type, each behind those in its own type arguments. -/
def ReferenceForm.classes : ReferenceForm → List ClassTypeForm
  | .object type => type.classes
  | .variable _ => []
  | .array element => element.classes
termination_by structural type => type

def TypeForm.classes : TypeForm → List ClassTypeForm
  | .base _ => []
  | .reference type => type.classes
termination_by structural type => type

def ClassTypeForm.classes : ClassTypeForm → List ClassTypeForm
  | .mk package outermost nested =>
      outermost.classes ++ SimpleClassForm.classesOf nested ++ [.mk package outermost nested]
termination_by structural type => type

def SimpleClassForm.classes : SimpleClassForm → List ClassTypeForm
  | .mk _ arguments => ArgumentForm.classesOf arguments
termination_by structural type => type

def SimpleClassForm.classesOf : List SimpleClassForm → List ClassTypeForm
  | [] => []
  | type :: types => type.classes ++ SimpleClassForm.classesOf types
termination_by structural types => types

def ArgumentForm.classes : ArgumentForm → List ClassTypeForm
  | .exactly type | .upTo type | .downTo type => type.classes
  | .any => []
termination_by structural argument => argument

def ArgumentForm.classesOf : List ArgumentForm → List ClassTypeForm
  | [] => []
  | argument :: arguments => argument.classes ++ ArgumentForm.classesOf arguments
termination_by structural arguments => arguments

end

namespace Signature.Reading

variable {part : Part} {after following : List Part} {found : List String}

def gathered (classes : List ClassTypeForm) (found : List String) : List String :=
  (classes.map ClassTypeForm.binaryName).reverse ++ found

theorem gathered_nil : gathered [] found = found := rfl

theorem gathered_append (classes classes' : List ClassTypeForm) :
    gathered (classes ++ classes') found = gathered classes' (gathered classes found) := by
  simp [gathered]

theorem takes_flatMap {α : Type} {pieces : List α} {text : α → List Char}
    {classes : α → List ClassTypeForm} {expected : List Signature.Part}
    (takes : ∀ piece ∈ pieces, ∀ found,
      Takes ⟨expected, found⟩ (text piece) ⟨expected, gathered (classes piece) found⟩) :
    Takes ⟨expected, found⟩ (pieces.flatMap text)
      ⟨expected, gathered (pieces.flatMap classes) found⟩ := by
  induction pieces generalizing found with
  | nil => exact takes_nil _
  | cons piece pieces ih =>
    rw [List.forall_mem_cons] at takes
    rw [List.flatMap_cons, List.flatMap_cons, gathered_append]
    exact (takes.1 found).append (ih takes.2)

/-- Whether a part lets a reference in, and what is expected behind it. -/
def Admits (part : Part) (after following : List Part) : Prop :=
  ∀ c ∈ ['L', 'T', '['], ∀ found, step ⟨part :: after, found⟩ c = openReference following found c

theorem LetsIn.admits (letsIn : LetsIn part after following) : Admits part after following := by
  intro c opens found
  simp only [List.mem_cons, List.not_mem_nil, or_false] at opens
  rcases opens with rfl | rfl | rfl <;> exact letsIn _ (by decide) found

theorem admits_reference : Admits .reference after after := fun _ _ _ => rfl

theorem admits_typeArguments : Admits .typeArguments after (.typeArguments :: after) := by
  intro c opens found
  simp only [List.mem_cons, List.not_mem_nil, or_false] at opens
  rcases opens with rfl | rfl | rfl <;> rfl

theorem admits_classBound : Admits .classBound after (.moreBounds :: after) := by
  intro c opens found
  simp only [List.mem_cons, List.not_mem_nil, or_false] at opens
  rcases opens with rfl | rfl | rfl <;> rfl

/-- Whether the name of a class may end behind a part, or go on with a class nested in it. -/
def MayClose (part : Part) (name : List Char) : Prop :=
  part = .className name ∨ part = .classSuffix name

theorem MayClose.ends {name : List Char} (mayClose : MayClose part name) :
    Takes ⟨part :: after, found⟩ [';'] ⟨after, String.ofList name.reverse :: found⟩ := by
  apply takes_step
  rcases mayClose with rfl | rfl <;> rfl

theorem MayClose.nests {name : List Char} (mayClose : MayClose part name) :
    Takes ⟨part :: after, found⟩ ['.'] ⟨.classSegment ('$' :: name) :: after, found⟩ := by
  apply takes_step
  rcases mayClose with rfl | rfl <;> rfl

theorem takes_marked {reading during next : Reading} {name : List Char} {mark : Char}
    (notNil : name ≠ []) (unmarked : ∀ c ∈ name, isDelimiter c = false)
    (begins : ∀ c, isDelimiter c = false → reading.step c = some during)
    (stays : ∀ c, isDelimiter c = false → during.step c = some during)
    (ends : during.step mark = some next) : reading.Takes (name ++ [mark]) next := by
  have rest {name : List Char} (unmarked : ∀ c ∈ name, isDelimiter c = false) :
      during.Takes name during := by
    induction name with
    | nil => exact takes_nil _
    | cons c name ih =>
      rw [List.forall_mem_cons] at unmarked
      exact (ih unmarked.2).cons (stays c unmarked.1)
  obtain ⟨c, others, rfl⟩ := List.exists_cons_of_ne_nil notNil
  rw [List.forall_mem_cons] at unmarked
  exact ((rest unmarked.2).append (takes_step ends)).cons (begins c unmarked.1)

theorem takes_variable_named {name : List Char} (notNil : name ≠ [])
    (unmarked : ∀ c ∈ name, isDelimiter c = false) :
    Takes ⟨.variable :: after, found⟩ (name ++ [';']) ⟨after, found⟩ := by
  have ends : step ⟨.variableName :: after, found⟩ ';' = some ⟨after, found⟩ := rfl
  refine takes_marked notNil unmarked ?_ ?_ ends
  · intro c unmarked
    simp [step, unmarked]
  · intro c unmarked
    simp [step, plain_of_unmarked unmarked, unmarked]

def MayFollow (part : Part) : Prop := part = .typeParameters ∨ part = .moreBounds

theorem takes_typeParameter_named {name : List Char} (notNil : name ≠ [])
    (unmarked : ∀ c ∈ name, isDelimiter c = false) (mayFollow : MayFollow part) :
    Takes ⟨part :: after, found⟩ (name ++ [':']) ⟨.classBound :: after, found⟩ := by
  have ends : step ⟨.typeParameterName :: after, found⟩ ':' =
      some ⟨.classBound :: after, found⟩ := rfl
  refine takes_marked notNil unmarked ?_ ?_ ends
  · intro c unmarked
    rcases mayFollow with rfl | rfl <;>
      simp [step, openBound, openTypeParameter, plain_of_unmarked unmarked, unmarked]
  · intro c unmarked
    simp [step, plain_of_unmarked unmarked, unmarked]

end Signature.Reading

open Signature.Reading

variable {part : Signature.Part} {after following : List Signature.Part} {found : List String}

namespace Identifier

variable (name : Identifier)

theorem unmarked : ∀ c ∈ name.text.toList, Signature.isDelimiter c = false := by
  have marks : Unmarked name.text := fun mark listed => name.plain mark (by revert mark; simp)
  exact marks.isDelimiter (name.plain ';' (by decide))

theorem notNil : name.text.toList ≠ [] := by simpa using name.notEmpty

theorem takes_variable :
    Takes ⟨.variable :: after, found⟩ (name.text.toList ++ [';']) ⟨after, found⟩ :=
  takes_variable_named name.notNil name.unmarked

theorem takes_typeParameter (mayFollow : MayFollow part) :
    Takes ⟨part :: after, found⟩ (name.text.toList ++ [':']) ⟨.classBound :: after, found⟩ :=
  takes_typeParameter_named name.notNil name.unmarked mayFollow

end Identifier

theorem ClassTypeForm.qualified_unmarked (package : List Identifier) (outermost : SimpleClassForm) :
    ∀ c ∈ qualified package outermost, Signature.isDelimiter c = false := by
  intro c member
  rw [qualified, List.mem_append, List.mem_flatMap] at member
  rcases member with ⟨segment, -, member⟩ | member
  · rcases List.mem_append.mp member with member | slash
    · exact segment.unmarked c member
    · rw [List.mem_singleton.mp slash]
      rfl
  · exact outermost.name.unmarked c member

theorem ClassTypeForm.binaryName_eq (package : List Identifier) (outermost : SimpleClassForm)
    (nested : List SimpleClassForm) : (mk package outermost nested).binaryName = String.ofList
      (qualified package outermost ++ nested.flatMap fun type => '$' :: type.name.text.toList) := by
  apply String.toList_injective
  rw [binaryName, String.toList_intercalate, List.map_cons, Text.intercalate_cons,
    String.toList_intercalate, List.map_append, List.map_append, List.map_singleton,
    List.map_singleton, Text.intercalate_concat]
  simp [qualified, List.flatMap_map]

mutual

theorem ReferenceForm.takes (type : ReferenceForm) (part : Signature.Part)
    (after following : List Signature.Part) (found : List String)
    (admits : Admits part after following) :
    Takes ⟨part :: after, found⟩ type.text ⟨following, gathered type.classes found⟩ := by
  match type with
  | .object type =>
    rw [ReferenceForm.text, ReferenceForm.classes]
    exact (type.takes following found).cons (admits 'L' (by decide) found)
  | .variable name =>
    rw [ReferenceForm.text, ReferenceForm.classes]
    exact name.takes_variable.cons (admits 'T' (by decide) found)
  | .array element =>
    rw [ReferenceForm.text, ReferenceForm.classes]
    have inner := element.takes .type following following found letsIn_type
    exact inner.cons (admits '[' (by decide) found)
termination_by structural type

theorem TypeForm.takes (type : TypeForm) (part : Signature.Part)
    (after following : List Signature.Part) (found : List String)
    (letsIn : LetsIn part after following) :
    Takes ⟨part :: after, found⟩ type.text ⟨following, gathered type.classes found⟩ := by
  match type with
  | .base type =>
    apply takes_step
    cases type <;> exact letsIn _ (by decide) found
  | .reference type => exact type.takes part after following found letsIn.admits
termination_by structural type

theorem ClassTypeForm.takes (type : ClassTypeForm) (after : List Signature.Part)
    (found : List String) :
    Takes ⟨.classSegment [] :: after, found⟩ type.text ⟨after, gathered type.classes found⟩ := by
  match type with
  | .mk package outermost nested =>
    have notNil : ClassTypeForm.qualified package outermost ≠ [] :=
      List.append_ne_nil_of_right_ne_nil _ outermost.name.notNil
    obtain ⟨part, mayClose, arguments⟩ := outermost.takes_arguments
      ((ClassTypeForm.qualified package outermost).reverse ++ []) after found
    have suffixes := SimpleClassForm.takes_suffixes nested part _ after
      (gathered outermost.classes found) mayClose
    have names : gathered (ClassTypeForm.mk package outermost nested).classes found =
        (ClassTypeForm.mk package outermost nested).binaryName ::
          gathered (SimpleClassForm.classesOf nested) (gathered outermost.classes found) := by
      rw [ClassTypeForm.classes, gathered_append, gathered_append]
      rfl
    rw [ClassTypeForm.text, names, ClassTypeForm.binaryName_eq]
    apply (takes_segment notNil (ClassTypeForm.qualified_unmarked package outermost) []).append
    apply arguments.append
    simpa using suffixes
termination_by structural type

theorem SimpleClassForm.takes_arguments (type : SimpleClassForm) (name : List Char)
    (after : List Signature.Part) (found : List String) :
    ∃ part, MayClose part name ∧ Takes ⟨.className name :: after, found⟩ type.arguments
      ⟨part :: after, gathered type.classes found⟩ := by
  match type with
  | .mk _ [] => exact ⟨.className name, .inl rfl, takes_nil _⟩
  | .mk _ (first :: rest) =>
    refine ⟨.classSuffix name, .inr rfl, ?_⟩
    rw [SimpleClassForm.arguments, SimpleClassForm.classes, ArgumentForm.classesOf,
      gathered_append]
    have others := (first.takes (.classSuffix name :: after) found).append
      (ArgumentForm.takes_all rest _ _)
    exact (others.append (takes_step rfl)).cons rfl
termination_by structural type

theorem SimpleClassForm.takes_suffixes (types : List SimpleClassForm) (part : Signature.Part)
    (name : List Char) (after : List Signature.Part) (found : List String)
    (mayClose : MayClose part name) :
    Takes ⟨part :: after, found⟩ (SimpleClassForm.suffixes types ++ [';'])
      ⟨after, String.ofList (name.reverse ++ types.flatMap fun type => '$' :: type.name.text.toList)
        :: gathered (SimpleClassForm.classesOf types) found⟩ := by
  match types with
  | [] =>
    rw [List.flatMap_nil, List.append_nil]
    exact mayClose.ends
  | type :: types =>
    rw [SimpleClassForm.suffixes, SimpleClassForm.classesOf, gathered_append]
    simp only [List.cons_append, List.append_assoc]
    apply mayClose.nests.append
    apply (takes_segment type.name.notNil type.name.unmarked _).append
    obtain ⟨part, mayClose, arguments⟩ := type.takes_arguments _ after found
    apply arguments.append
    have rest := SimpleClassForm.takes_suffixes types part _ after
      (gathered type.classes found) mayClose
    simpa using rest
termination_by structural types

theorem ArgumentForm.takes (argument : ArgumentForm) (after : List Signature.Part)
    (found : List String) : Takes ⟨.typeArguments :: after, found⟩ argument.text
      ⟨.typeArguments :: after, gathered argument.classes found⟩ := by
  match argument with
  | .exactly type => exact type.takes _ after _ found admits_typeArguments
  | .upTo bound => exact (bound.takes _ _ _ found admits_reference).cons rfl
  | .downTo bound => exact (bound.takes _ _ _ found admits_reference).cons rfl
  | .any => exact takes_step rfl
termination_by structural argument

theorem ArgumentForm.takes_all (arguments : List ArgumentForm) (after : List Signature.Part)
    (found : List String) : Takes ⟨.typeArguments :: after, found⟩ (ArgumentForm.texts arguments)
      ⟨.typeArguments :: after, gathered (ArgumentForm.classesOf arguments) found⟩ := by
  match arguments with
  | [] => exact takes_nil _
  | argument :: arguments =>
    rw [ArgumentForm.texts, ArgumentForm.classesOf, gathered_append]
    exact (argument.takes after found).append (ArgumentForm.takes_all arguments after _)
termination_by structural arguments

end

/-! ## Whole signatures -/

/-- A type parameter. The text of one without a class bound has nothing where the bound would be. -/
structure TypeParameterForm where
  name : Identifier
  classBound : Option ReferenceForm
  interfaceBounds : List ReferenceForm

inductive ThrownForm
  | object (type : ClassTypeForm)
  | variable (name : Identifier)

inductive SignatureForm
  | ofField (type : ReferenceForm)
  | ofClass (parameters : List TypeParameterForm) (superclass : ClassTypeForm)
      (interfaces : List ClassTypeForm)
  | ofMethod (typeParameters : List TypeParameterForm) (parameters : List TypeForm)
      (result : Option TypeForm) (thrown : List ThrownForm)

namespace TypeParameterForm

def bounds (parameter : TypeParameterForm) : List Char :=
  parameter.classBound.toList.flatMap ReferenceForm.text
    ++ parameter.interfaceBounds.flatMap fun bound => ':' :: bound.text

def text (parameter : TypeParameterForm) : List Char :=
  parameter.name.text.toList ++ ':' :: parameter.bounds

def classes (parameter : TypeParameterForm) : List ClassTypeForm :=
  parameter.classBound.toList.flatMap ReferenceForm.classes
    ++ parameter.interfaceBounds.flatMap ReferenceForm.classes

def Bounded (parameter : TypeParameterForm) : Prop :=
  parameter.classBound ≠ none ∨ parameter.interfaceBounds ≠ []

end TypeParameterForm

def ThrownForm.reference : ThrownForm → ReferenceForm
  | .object type => .object type
  | .variable name => .variable name

namespace SignatureForm

def typeParameters : SignatureForm → List TypeParameterForm
  | ofField _ => []
  | ofClass parameters _ _ => parameters
  | ofMethod typeParameters _ _ _ => typeParameters

def typeParametersText : List TypeParameterForm → List Char
  | [] => []
  | parameters => '<' :: (parameters.flatMap TypeParameterForm.text ++ ['>'])

def bodyText : SignatureForm → List Char
  | ofField type => type.text
  | ofClass _ superclass interfaces =>
      (superclass :: interfaces).flatMap fun type => 'L' :: type.text
  | ofMethod _ parameters result thrown =>
      '(' :: (parameters.flatMap TypeForm.text ++ ')' :: (result.elim ['V'] TypeForm.text
        ++ thrown.flatMap fun type => '^' :: type.reference.text))

def text (form : SignatureForm) : String :=
  String.ofList (typeParametersText form.typeParameters ++ form.bodyText)

def bodyClasses : SignatureForm → List ClassTypeForm
  | ofField type => type.classes
  | ofClass _ superclass interfaces => (superclass :: interfaces).flatMap ClassTypeForm.classes
  | ofMethod _ parameters result thrown =>
      parameters.flatMap TypeForm.classes ++ (result.toList.flatMap TypeForm.classes
        ++ thrown.flatMap fun type => type.reference.classes)

def classes (form : SignatureForm) : List ClassTypeForm :=
  form.typeParameters.flatMap TypeParameterForm.classes ++ form.bodyClasses

end SignatureForm

namespace TypeParameterForm

variable {parameter : TypeParameterForm}

theorem takes_interfaceBound (bound : ReferenceForm)
    (mayFollow : part = .classBound ∨ part = .moreBounds) :
    Takes ⟨part :: after, found⟩ (':' :: bound.text)
      ⟨.moreBounds :: after, gathered bound.classes found⟩ := by
  apply (bound.takes .reference _ _ found admits_reference).cons
  rcases mayFollow with rfl | rfl <;> rfl

theorem takes_bounds (bounded : parameter.Bounded) :
    Takes ⟨.classBound :: after, found⟩ parameter.bounds
      ⟨.moreBounds :: after, gathered parameter.classes found⟩ := by
  obtain ⟨name, classBound, interfaceBounds⟩ := parameter
  have others (bounds : List ReferenceForm) (found : List String) :
      Takes ⟨.moreBounds :: after, found⟩ (bounds.flatMap fun bound => ':' :: bound.text)
        ⟨.moreBounds :: after, gathered (bounds.flatMap ReferenceForm.classes) found⟩ :=
    takes_flatMap fun bound _ _ => takes_interfaceBound bound (.inr rfl)
  rw [bounds, classes, gathered_append]
  cases classBound with
  | some bound =>
    simp only [Option.toList_some, List.flatMap_singleton]
    exact (bound.takes .classBound after _ found admits_classBound).append (others _ _)
  | none =>
    cases interfaceBounds with
    | nil => simp [Bounded] at bounded
    | cons bound interfaceBounds =>
      simp only [Option.toList_none, List.flatMap_nil, List.nil_append, List.flatMap_cons,
        gathered_append, gathered_nil]
      exact (takes_interfaceBound bound (.inl rfl)).append (others _ _)

theorem takes (bounded : parameter.Bounded) (mayFollow : MayFollow part) :
    Takes ⟨part :: after, found⟩ parameter.text
      ⟨.moreBounds :: after, gathered parameter.classes found⟩ := by
  rw [text, List.append_cons]
  exact (parameter.name.takes_typeParameter mayFollow).append (takes_bounds bounded)

theorem takes_bounded {parameters : List TypeParameterForm}
    (bounded : ∀ parameter ∈ parameters, parameter.Bounded) (mayFollow : MayFollow part) :
    ∃ next, MayFollow next ∧ Takes ⟨part :: after, found⟩ (parameters.flatMap text)
      ⟨next :: after, gathered (parameters.flatMap classes) found⟩ := by
  cases parameters with
  | nil => exact ⟨part, mayFollow, takes_nil _⟩
  | cons parameter parameters =>
    rw [List.forall_mem_cons] at bounded
    refine ⟨.moreBounds, .inr rfl, ?_⟩
    rw [List.flatMap_cons, List.flatMap_cons, gathered_append]
    exact (takes bounded.1 mayFollow).append
      (takes_flatMap fun other listed _ => takes (bounded.2 other listed) (.inr rfl))

/-- Nothing may be left out of the last type parameter but its bounds. -/
theorem takes_last (parameter : TypeParameterForm) (mayFollow : MayFollow part) :
    Takes ⟨part :: after, found⟩ (parameter.text ++ ['>'])
      ⟨after, gathered parameter.classes found⟩ := by
  by_cases bounded : parameter.Bounded
  · exact (takes bounded mayFollow).append (takes_step rfl)
  · obtain ⟨unbounded, noInterfaces⟩ := not_or.mp bounded
    rw [not_not] at unbounded noInterfaces
    have closes : Takes ⟨.classBound :: after, found⟩ ['>'] ⟨after, found⟩ := takes_step rfl
    simpa [text, bounds, classes, unbounded, noInterfaces, gathered_nil]
      using (parameter.name.takes_typeParameter mayFollow).append closes

theorem takes_all {parameters : List TypeParameterForm}
    (bounded : ∀ parameter ∈ parameters.dropLast, parameter.Bounded) :
    Takes ⟨.typeParameters :: after, found⟩ (parameters.flatMap text ++ ['>'])
      ⟨after, gathered (parameters.flatMap classes) found⟩ := by
  rcases parameters.eq_nil_or_concat' with rfl | ⟨before, last, rfl⟩
  · exact takes_step rfl
  · rw [List.dropLast_concat] at bounded
    obtain ⟨part, mayFollow, first⟩ := takes_bounded bounded (.inl rfl)
    simp only [List.flatMap_append, List.flatMap_singleton, List.append_assoc, gathered_append]
    exact first.append (last.takes_last mayFollow)

end TypeParameterForm

namespace SignatureForm

/-- Whether every type parameter but the last has a bound. -/
def Bounded (form : SignatureForm) : Prop :=
  ∀ parameter ∈ form.typeParameters.dropLast, parameter.Bounded

theorem takes_typeParameters {form : SignatureForm} (bounded : form.Bounded) :
    ∃ part, (part = .whole ∨ part = .body) ∧
      Takes ⟨[.whole], []⟩ (typeParametersText form.typeParameters)
        ⟨[part], gathered (form.typeParameters.flatMap TypeParameterForm.classes) []⟩ := by
  rw [Bounded] at bounded
  cases given : form.typeParameters with
  | nil => exact ⟨.whole, .inl rfl, takes_nil _⟩
  | cons first others =>
    rw [given] at bounded
    exact ⟨.body, .inr rfl, (TypeParameterForm.takes_all bounded).cons rfl⟩

theorem letsIn_body : LetsIn .body after (.types :: after) := by
  intro c noOpener found
  simp only [openers, List.mem_cons, not_or] at noOpener
  simp [step, openBody, noOpener]

theorem admits_body (opens : part = .whole ∨ part = .body) :
    Admits part after (.types :: after) := by
  rcases opens with rfl | rfl
  · exact letsIn_whole.admits
  · exact letsIn_body.admits

theorem takes_result (result : Option TypeForm) :
    Takes ⟨.result :: after, found⟩ (result.elim ['V'] TypeForm.text)
      ⟨.thrown :: after, gathered (result.toList.flatMap TypeForm.classes) found⟩ := by
  cases result with
  | none => exact takes_step rfl
  | some type =>
    rw [Option.toList_some, List.flatMap_singleton]
    exact type.takes .result after _ found letsIn_result

theorem opens_method (opens : part = .whole ∨ part = .body) :
    step ⟨part :: after, found⟩ '(' = some ⟨.parameters :: after, found⟩ := by
  rcases opens with rfl | rfl <;> rfl

theorem takes_body (form : SignatureForm) (opens : part = .whole ∨ part = .body) :
    ∃ final, (final = .types ∨ final = .thrown) ∧
      Takes ⟨[part], found⟩ form.bodyText ⟨[final], gathered form.bodyClasses found⟩ := by
  cases form with
  | ofField type => exact ⟨.types, .inl rfl, type.takes _ _ _ found (admits_body opens)⟩
  | ofClass parameters superclass interfaces =>
    refine ⟨.types, .inl rfl, ?_⟩
    rw [bodyText, bodyClasses, List.flatMap_cons, List.flatMap_cons, gathered_append]
    apply ((superclass.takes _ found).cons (admits_body opens 'L' (by decide) found)).append
    apply takes_flatMap
    intro type _ found
    exact (type.takes _ found).cons rfl
  | ofMethod typeParameters parameters result thrown =>
    refine ⟨.thrown, .inr rfl, ?_⟩
    rw [bodyText, bodyClasses, gathered_append, gathered_append]
    apply Takes.cons (opens_method opens)
    apply (takes_flatMap fun type _ found => type.takes _ _ _ found letsIn_parameters).append
    apply Takes.cons rfl
    apply (takes_result result).append
    apply takes_flatMap
    intro type _ found
    exact (type.reference.takes _ _ _ found admits_reference).cons rfl

theorem classNames_text (form : SignatureForm) (bounded : form.Bounded) :
    Signature.classNames form.text = .ok (form.classes.map ClassTypeForm.binaryName) := by
  obtain ⟨part, opens, typeParameters⟩ := takes_typeParameters bounded
  obtain ⟨final, ends, body⟩ := form.takes_body opens
  have takes := typeParameters.append body
  rw [← gathered_append] at takes
  have mayEnd (found : List String) : mayEnd ⟨[final], found⟩ = true := by
    rcases ends with rfl | rfl <;> rfl
  rw [Signature.classNames, text, String.toList_ofList, classNames?_of_takes takes (mayEnd _)]
  simp [gathered, classes]

/-- A method with two type parameters, the last of which has no bound. -/
def sample : SignatureForm :=
  let key : Identifier := ⟨"K", by simp, by simp⟩
  let value : Identifier := ⟨"V", by simp, by simp⟩
  let map : SimpleClassForm := .mk ⟨"Map", by simp, by simp⟩
    [.exactly (.variable key), .upTo (.array (.reference (.object (.mk [] (.mk value []) []))))]
  let entry : SimpleClassForm := .mk ⟨"Entry", by simp, by simp⟩ [.any]
  let comparable : SimpleClassForm :=
    .mk ⟨"Comparable", by simp, by simp⟩ [.downTo (.variable key)]
  let package : List Identifier := [⟨"java", by simp, by simp⟩, ⟨"util", by simp, by simp⟩]
  .ofMethod [⟨key, none, [.object (.mk [] comparable [])]⟩, ⟨value, none, []⟩]
    [.reference (.object (.mk package map [entry])), .base .int] none [.variable value]

theorem classNames_text_sample : sample.Bounded ∧
    sample.text = "<K::LComparable<-TK;>;V:>(Ljava/util/Map<TK;+[LV;>.Entry<*>;I)V^TV;" ∧
    Signature.classNames sample.text = .ok ["Comparable", "V", "java/util/Map$Entry"] := by
  have bounded : sample.Bounded := by
    intro parameter listed
    rw [List.mem_singleton.mp listed]
    exact .inr (List.cons_ne_nil _ _)
  exact ⟨bounded, by decide, (classNames_text sample bounded).trans (by decide)⟩

end SignatureForm

end Linkage
