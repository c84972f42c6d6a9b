import Linkage.Descriptor

/-!
The classes named by a generic signature of a class, method or field.

A signature is read one character at a time. A stack holds the parts that are still expected, the
next one on top; a part either takes the character and stays, makes way for the parts that must
follow, or refuses. Every descriptor is a signature too.

Class names come out in the order in which they end, so a class follows its own type arguments.
Nested types written as `Outer<T>.Inner` are joined by a dollar sign.
-/

namespace Linkage

namespace Signature

def isDelimiter (c : Char) : Bool :=
  c = ';' || c = '<' || c = '>' || c = '.' || c = ':'

/-- A part of a signature that is still to come. Names under way are held last character first. -/
inductive Part
  | whole
  /-- What follows the type parameters: the method form or the form without brackets. -/
  | body
  | types
  | parameters
  | result
  | thrown
  | typeParameters
  | typeParameterName
  /-- The class bound of a type parameter, which may be left out, and the bounds after it. -/
  | classBound
  | moreBounds
  | type
  | reference
  /-- A name of a class, of which the next segment has not begun. -/
  | classSegment (before : List Char)
  | className (before : List Char)
  | classSuffix (name : List Char)
  | typeArguments
  | variable
  | variableName
  deriving DecidableEq, Repr

/-- Where a reading stands: the parts still expected and the class names found, the last first. -/
structure Reading where
  expected : List Part
  found : List String
  deriving DecidableEq, Repr

namespace Reading

def openReference (after : List Part) (found : List String) (c : Char) : Option Reading :=
  match c with
  | 'L' => some ⟨.classSegment [] :: after, found⟩
  | 'T' => some ⟨.variable :: after, found⟩
  | '[' => some ⟨.type :: after, found⟩
  | _ => none

def openType (after : List Part) (found : List String) (c : Char) : Option Reading :=
  match BaseType.ofLetter? c with
  | some _ => some ⟨after, found⟩
  | none => openReference after found c

def openTypeParameter (after : List Part) (found : List String) (c : Char) : Option Reading :=
  if c = '>' then some ⟨after, found⟩
  else if isDelimiter c then none
  else some ⟨.typeParameterName :: after, found⟩

def openBound (after : List Part) (found : List String) (c : Char) : Option Reading :=
  if c = ':' then some ⟨.reference :: .moreBounds :: after, found⟩
  else openTypeParameter after found c

def openBody (after : List Part) (found : List String) (c : Char) : Option Reading :=
  if c = '(' then some ⟨.parameters :: after, found⟩
  else openType (.types :: after) found c

def step (reading : Reading) (c : Char) : Option Reading :=
  let found := reading.found
  match reading.expected with
  | [] => none
  | .whole :: after =>
      if c = '<' then some ⟨.typeParameters :: .body :: after, found⟩ else openBody after found c
  | .body :: after => openBody after found c
  | .types :: after => openType (.types :: after) found c
  | .parameters :: after =>
      if c = ')' then some ⟨.result :: after, found⟩
      else openType (.parameters :: after) found c
  | .result :: after =>
      if c = 'V' then some ⟨.thrown :: after, found⟩ else openType (.thrown :: after) found c
  | .thrown :: after =>
      if c = '^' then some ⟨.reference :: .thrown :: after, found⟩ else none
  | .typeParameters :: after => openTypeParameter after found c
  | .typeParameterName :: after =>
      if c = ':' then some ⟨.classBound :: after, found⟩
      else if isDelimiter c then none
      else some reading
  | .classBound :: after =>
      if c = ':' || c = '>' then openBound after found c
      else openReference (.moreBounds :: after) found c
  | .moreBounds :: after => openBound after found c
  | .type :: after => openType after found c
  | .reference :: after => openReference after found c
  | .classSegment before :: after =>
      if isDelimiter c then none else some ⟨.className (c :: before) :: after, found⟩
  | .className before :: after =>
      if c = ';' then some ⟨after, String.ofList before.reverse :: found⟩
      else if c = '.' then some ⟨.classSegment ('$' :: before) :: after, found⟩
      else if c = '<' then some ⟨.typeArguments :: .classSuffix before :: after, found⟩
      else if isDelimiter c then none
      else some ⟨.className (c :: before) :: after, found⟩
  | .classSuffix name :: after =>
      if c = ';' then some ⟨after, String.ofList name.reverse :: found⟩
      else if c = '.' then some ⟨.classSegment ('$' :: name) :: after, found⟩
      else none
  | .typeArguments :: after =>
      if c = '>' then some ⟨after, found⟩
      else if c = '*' then some reading
      else if c = '+' || c = '-' then some ⟨.reference :: .typeArguments :: after, found⟩
      else openReference (.typeArguments :: after) found c
  | .variable :: after =>
      if isDelimiter c then none else some ⟨.variableName :: after, found⟩
  | .variableName :: after =>
      if c = ';' then some ⟨after, found⟩
      else if isDelimiter c then none
      else some reading

def run (reading : Reading) : List Char → Option Reading
  | [] => some reading
  | c :: rest =>
    match reading.step c with
    | some next => next.run rest
    | none => none

def mayEnd (reading : Reading) : Bool :=
  match reading.expected with
  | [.whole] | [.body] | [.types] | [.thrown] => true
  | _ => false

end Reading

def classNames? (text : List Char) : Option (List String) :=
  match Reading.run ⟨[.whole], []⟩ text with
  | some reading => if reading.mayEnd then some reading.found.reverse else none
  | none => none

/-- The class names in a signature, in the order in which they end. -/
def classNames (text : String) : Except Fault (List String) :=
  match classNames? text.toList with
  | some names => .ok names
  | none => .error (.badDescriptor text)

end Signature

end Linkage
