import Linkage.Fault

/-!
Field and method descriptors: the types of members, in the class-file format's short form.

A field type is an element type under some number of array dimensions: `[[Ljava/lang/String;` is a
string array of two dimensions. A method descriptor lists the parameter types in brackets and then
the result type, or `V` for no result. Class names are internal ones, with slashes.
-/

namespace Linkage

inductive BaseType
  | byte | char | double | float | int | long | short | boolean
  deriving DecidableEq, Repr

namespace BaseType

def letter : BaseType → Char
  | byte => 'B'
  | char => 'C'
  | double => 'D'
  | float => 'F'
  | int => 'I'
  | long => 'J'
  | short => 'S'
  | boolean => 'Z'

def ofLetter? : Char → Option BaseType
  | 'B' => some byte
  | 'C' => some char
  | 'D' => some double
  | 'F' => some float
  | 'I' => some int
  | 'J' => some long
  | 'S' => some short
  | 'Z' => some boolean
  | _ => none

def name : BaseType → String
  | byte => "byte"
  | char => "char"
  | double => "double"
  | float => "float"
  | int => "int"
  | long => "long"
  | short => "short"
  | boolean => "boolean"

theorem ofLetter?_eq_some_iff {c : Char} {type : BaseType} :
    ofLetter? c = some type ↔ c = type.letter := by
  constructor
  · intro found
    unfold ofLetter? at found
    split at found <;> cases found <;> rfl
  · rintro rfl
    cases type <;> rfl

end BaseType

inductive ElementType
  | base (type : BaseType)
  | object (internalName : String)
  deriving DecidableEq, Repr

/-- The type of a field or parameter: an array of so many dimensions, or none. -/
structure FieldType where
  dimensions : Nat
  element : ElementType
  deriving DecidableEq, Repr

namespace FieldType

def className? (type : FieldType) : Option String :=
  match type.element with
  | .base _ => none
  | .object name => some name

def display (type : FieldType) : String :=
  let element := match type.element with
    | .base base => base.name
    | .object name => name.map fun c => if c = '/' then '.' else c
  String.ofList (element.toList ++ (List.replicate type.dimensions ['[', ']']).flatten)

def read? (text : List Char) : Option (FieldType × List Char) :=
  let brackets := text.takeWhile (· = '[')
  match text.dropWhile (· = '[') with
  | [] => none
  | 'L' :: rest =>
    let name := rest.takeWhile (· ≠ ';')
    match name, rest.dropWhile (· ≠ ';') with
    | _ :: _, _ :: after => some (⟨brackets.length, .object (String.ofList name)⟩, after)
    | _, _ => none
  | c :: rest => (BaseType.ofLetter? c).map fun base => (⟨brackets.length, .base base⟩, rest)

theorem read?_length {text rest : List Char} {type : FieldType}
    (success : read? text = some (type, rest)) : rest.length < text.length := by
  have shorter {list : List Char} {test : Char → Bool} {head : Char} {tail : List Char}
      (dropped : list.dropWhile test = head :: tail) : tail.length < list.length := by
    have := dropped ▸ (List.dropWhile_sublist test (l := list)).length_le
    simpa [Nat.succ_le_iff] using this
  unfold read? at success
  simp only at success
  split at success
  · cases success
  case h_2 afterBrackets =>
    have := shorter afterBrackets
    split at success
    · rename_i afterName
      cases success
      have := shorter afterName
      omega
    · cases success
  case h_3 afterBrackets =>
    have := shorter afterBrackets
    simp only [Option.map_eq_some_iff] at success
    obtain ⟨_, _, same⟩ := success
    cases same
    exact this

def ofDescriptor (text : String) : Except Fault FieldType :=
  match read? text.toList with
  | some (type, []) => .ok type
  | _ => .error (.badDescriptor text)

end FieldType

/-- The parameter types of a method and its result type, which is missing for `void`. -/
structure MethodType where
  parameters : List FieldType
  result : Option FieldType
  deriving DecidableEq, Repr

namespace MethodType

def displayResult (type : MethodType) : String :=
  match type.result with
  | some result => result.display
  | none => "void"

def classNames (type : MethodType) : List String :=
  type.parameters.filterMap FieldType.className? ++ (type.result.bind FieldType.className?).toList

/-- Parameter types up to the closing bracket, behind those already read (last one first), and what
follows the bracket. -/
def readParameters? (before : List FieldType) (text : List Char) :
    Option (List FieldType × List Char) :=
  match text with
  | ')' :: rest => some (before.reverse, rest)
  | text =>
    match found : FieldType.read? text with
    | some (type, rest) =>
      have := FieldType.read?_length found
      readParameters? (type :: before) rest
    | none => none
termination_by text.length

/-- The result type that makes up the rest of a method descriptor. -/
def readResult? (text : List Char) : Option (Option FieldType) :=
  match text with
  | ['V'] => some none
  | text =>
    match FieldType.read? text with
    | some (type, []) => some (some type)
    | _ => none

def read? (text : List Char) : Option MethodType :=
  match text with
  | '(' :: text => do
    let (parameters, text) ← readParameters? [] text
    let result ← readResult? text
    return { parameters, result }
  | _ => none

def ofDescriptor (text : String) : Except Fault MethodType :=
  match read? text.toList with
  | some type => .ok type
  | none => .error (.badDescriptor text)

end MethodType

end Linkage
