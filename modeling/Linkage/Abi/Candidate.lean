import Linkage.Abi.Basic
import Linkage.ClassFile.Basic
import Linkage.Signature

/-!
What a class file contributes to a surface, should its type turn out to be visible.

Whether a nested type is visible depends on the types around it, which other class files define. A
candidate keeps what its own class file says about that. Members that are not visible are passed
over unread.
-/

namespace Linkage

namespace AccessFlags

/-- Whether the flags let other packages in, be it only subclasses. -/
def isVisible (flags : AccessFlags) : Bool := flags.isPublic || flags.isProtected

def visibility (flags : AccessFlags) : List Modifier :=
  if flags.isPublic then [.isPublic] else if flags.isProtected then [.isProtected] else []

end AccessFlags

def TypeKind.ofFlags (flags : AccessFlags) : TypeKind :=
  if flags.isAnnotationType then .annotationType
  else if flags.isInterface then .interfaceType
  else if flags.isEnum then .enumType
  else .classType

namespace Member

/-- Whether a field or method belongs to a surface. Names with a dollar sign and static initialisers
come from the compiler. -/
def isDeclared (member : Member) : Bool :=
  member.flags.isVisible && !member.isSynthetic && member.name ≠ "<clinit>"
    && !member.name.toList.contains '$'

def isDeclaredMethod (member : Member) : Bool := member.isDeclared && !member.flags.isBridge

def fieldModifiers (member : Member) : List Modifier :=
  member.flags.visibility ++ (if member.flags.isStatic then [.isStatic] else [])
    ++ (if member.flags.isFinal then [.isFinal] else [])

def methodModifiers (member : Member) : List Modifier :=
  member.fieldModifiers ++ (if member.flags.isAbstract then [.isAbstract] else [])

def exposing (member : Member) (modifiers : List Modifier) (type : MemberType) :
    Except Fault (VisibleMember × List String) := do
  let generic ← member.signature.toList.mapM Signature.classNames
  return ({ name := member.name, descriptor := member.descriptor, type, modifiers },
    type.classNames ++ generic.flatten)

def visibleField (member : Member) : Except Fault (VisibleMember × List String) := do
  let type ← FieldType.ofDescriptor member.descriptor
  member.exposing member.fieldModifiers (.field type)

def visibleMethod (member : Member) : Except Fault (VisibleMember × List String) := do
  let type ← MethodType.ofDescriptor member.descriptor
  member.exposing member.methodModifiers (.method type)

end Member

/-- The place of a nested type: whether its own entry in the nesting table makes it visible, and the
internal name of the type around it. -/
structure Nesting where
  isVisible : Bool
  outer : Option String
  deriving DecidableEq, Repr

structure Candidate where
  type : VisibleType
  isPublic : Bool
  isSynthetic : Bool
  nesting : Option Nesting
  deriving DecidableEq, Repr

namespace Candidate

def modifiers (kind : TypeKind) (flags : AccessFlags) : List Modifier :=
  flags.visibility ++ (if flags.isStatic then [.isStatic] else [])
    ++ (if kind = .classType && flags.isAbstract then [.isAbstract] else [])
    ++ (if kind = .classType && flags.isFinal then [.isFinal] else [])

/-- The superclass that a declaration names. No declaration names the class at the root of all
classes, and none of an interface names a superclass. -/
def superclass (unit : ClassFile) : Option String :=
  unit.superClass.filter fun name =>
    name ≠ "java/lang/Object" && TypeKind.ofFlags unit.flags ≠ .interfaceType

def assemble (unit : ClassFile) (generic : List String)
    (members : List (VisibleMember × List String)) : Candidate where
  type := {
    symbol := unit.symbol
    kind := TypeKind.ofFlags unit.flags
    modifiers := modifiers (TypeKind.ofFlags unit.flags)
      ((unit.selfEntry.map InnerClass.flags).getD unit.flags)
    superclass := (superclass unit).map Symbol.ofInternal
    interfaces := (unit.interfaces.map Symbol.ofInternal).mergeSort SymbolSet.inOrder
    members := (members.map Prod.fst).mergeSort VisibleMember.inOrder
    sourceFile := unit.sourceFile
    major := unit.major
    minor := unit.minor
    exposed :=
      let names := (superclass unit).toList ++ unit.interfaces ++ generic
        ++ members.flatMap Prod.snd
      (SymbolSet.ofList (names.map Symbol.ofInternal)).filter fun symbol =>
        symbol ≠ unit.symbol && !symbol.isSynthetic }
  isPublic := unit.flags.isPublic
  isSynthetic := unit.isSynthetic
  nesting := unit.selfEntry.map fun entry => ⟨entry.flags.isVisible, entry.outer⟩

def ofClass (unit : ClassFile) : Except Fault Candidate := do
  let generic ← unit.signature.toList.mapM Signature.classNames
  let fields ← (unit.fields.filter Member.isDeclared).mapM Member.visibleField
  let methods ← (unit.methods.filter Member.isDeclaredMethod).mapM Member.visibleMethod
  return assemble unit generic.flatten (fields ++ methods)

end Candidate

end Linkage
