import Linkage.Data.Basic
import Linkage.Descriptor
import Linkage.SymbolSet

/-!
Surfaces: the types and members that code outside a module can be compiled against.

Types are named by symbols. A surface lists its types by name, and each type its members by name and
then descriptor.
-/

namespace Linkage

inductive TypeKind
  | classType
  | interfaceType
  | enumType
  | annotationType
  deriving DecidableEq, Repr

def TypeKind.keyword : TypeKind → String
  | .classType => "class"
  | .interfaceType => "interface"
  | .enumType => "enum"
  | .annotationType => "@interface"

def TypeKind.name : TypeKind → String
  | .classType => "class"
  | .interfaceType => "interface"
  | .enumType => "enum"
  | .annotationType => "annotation"

inductive Modifier
  | isPublic
  | isProtected
  | isStatic
  | isAbstract
  | isFinal
  deriving DecidableEq, Repr

def Modifier.name : Modifier → String
  | .isPublic => "public"
  | .isProtected => "protected"
  | .isStatic => "static"
  | .isAbstract => "abstract"
  | .isFinal => "final"

inductive MemberType
  | field (type : FieldType)
  | method (type : MethodType)
  deriving DecidableEq, Repr

namespace MemberType

def kindName : MemberType → String
  | field _ => "field"
  | method _ => "method"

def classNames : MemberType → List String
  | field type => type.className?.toList
  | method type => type.classNames

/-- The declaration of a member with some name and this type. A constructor has no result. -/
def declare (name : String) : MemberType → String
  | field type => s!"{type.display} {name}"
  | method type =>
      let parameters := ", ".intercalate (type.parameters.map FieldType.display)
      if name = "<init>" then s!"<init>({parameters})"
      else s!"{type.displayResult} {name}({parameters})"

end MemberType

structure VisibleMember where
  name : String
  descriptor : String
  type : MemberType
  /-- In the order in which source code writes them. -/
  modifiers : List Modifier
  deriving DecidableEq, Repr

namespace VisibleMember

def display (member : VisibleMember) : String :=
  " ".intercalate (member.modifiers.map Modifier.name ++ [member.type.declare member.name])

/-- Whether a member may stand before another: by name, then descriptor. -/
def inOrder (a b : VisibleMember) : Bool :=
  a.name < b.name || (a.name = b.name && !decide (b.descriptor < a.descriptor))

def toData (member : VisibleMember) : Data :=
  .table [("kind", .text member.type.kindName), ("name", .text member.name),
    ("descriptor", .text member.descriptor),
    ("modifiers", .texts (member.modifiers.map Modifier.name)), ("display", .text member.display)]

end VisibleMember

structure VisibleType where
  symbol : Symbol
  kind : TypeKind
  modifiers : List Modifier
  superclass : Option Symbol
  /-- In ascending order. -/
  interfaces : List Symbol
  members : List VisibleMember
  sourceFile : Option String
  major : UInt16
  minor : UInt16
  /-- The types that the declarations of the type and its visible members name, itself aside. -/
  exposed : SymbolSet
  deriving DecidableEq, Repr

def Data.textOrNull : Option String → Data
  | some value => .text value
  | none => .null

def VisibleType.toData (type : VisibleType) : Data :=
  .table [("name", .text type.symbol.name), ("kind", .text type.kind.name),
    ("modifiers", .texts (type.modifiers.map Modifier.name)),
    ("super_class", .textOrNull (type.superclass.map Symbol.name)),
    ("interfaces", .texts (type.interfaces.map Symbol.name)),
    ("members", .list (type.members.map VisibleMember.toData)),
    ("source_file", .textOrNull type.sourceFile),
    ("major_version", .natural type.major.toNat), ("minor_version", .natural type.minor.toNat)]

structure Surface where
  types : List VisibleType
  deriving DecidableEq, Repr

namespace Surface

def memberCount (surface : Surface) : Nat :=
  (surface.types.flatMap fun type => type.members).length

def exposed (surface : Surface) : SymbolSet :=
  SymbolSet.ofList (surface.types.flatMap fun type => type.exposed.toList)

def toData (surface : Surface) : Data :=
  .table [("types", .list (surface.types.map VisibleType.toData))]

end Surface

end Linkage
