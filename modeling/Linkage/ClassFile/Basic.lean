import Linkage.ClassFile.Attribute
import Linkage.Symbol

/-!
Class files: one compiled type, or the description of a module or package.

`ClassFile.ofBytes` reads a class file and takes no notice of what follows it.
-/

namespace Linkage

def lastSome? {α β : Type} (pick : α → Option β) (list : List α) : Option β :=
  list.reverse.findSome? pick

structure Member where
  flags : AccessFlags
  name : String
  descriptor : String
  attributes : List Attribute
  deriving DecidableEq, Repr

/-- A compiled class. Names of classes are internal ones, with slashes. -/
structure ClassFile where
  minor : UInt16
  major : UInt16
  pool : Pool
  flags : AccessFlags
  thisClass : String
  superClass : Option String
  interfaces : List String
  fields : List Member
  methods : List Member
  attributes : List Attribute
  deriving DecidableEq, Repr

/-! ## What attributes say -/

namespace Attribute

def sourceFileOf (attributes : List Attribute) : Option String :=
  lastSome? (fun | sourceFile name => some name | _ => none) attributes

def signatureOf (attributes : List Attribute) : Option String :=
  lastSome? (fun | signature text => some text | _ => none) attributes

def innerClassesOf (attributes : List Attribute) : List InnerClass :=
  (lastSome? (fun | innerClasses entries => some entries | _ => none) attributes).getD []

def marksSynthetic (attributes : List Attribute) : Bool := attributes.contains synthetic

end Attribute

open Decoder

def Member.decoder (pool : Pool) : Decoder Member := do
  let flags ← u2
  let name ← pool.utf8 (← u2)
  let descriptor ← pool.utf8 (← u2)
  return { flags := ⟨flags⟩, name, descriptor, attributes := ← Attribute.table pool }

namespace Member

def signature (member : Member) : Option String := Attribute.signatureOf member.attributes

def markedSynthetic (member : Member) : Bool := Attribute.marksSynthetic member.attributes

def isSynthetic (member : Member) : Bool := member.markedSynthetic || member.flags.isSynthetic

end Member

namespace ClassFile

def magic : UInt32 := 0xCAFEBABE

def decoder : Decoder ClassFile := do
  let found ← u4
  if found ≠ magic then throw (.badMagic found)
  let minor ← u2
  let major ← u2
  let pool ← Pool.decoder
  let flags ← u2
  let thisClass ← pool.className (← u2)
  let superClass ← pool.className? (← u2)
  let interfaces ← counted do
    let name ← pool.className (← u2)
    return name
  let fields ← counted (Member.decoder pool)
  let methods ← counted (Member.decoder pool)
  let attributes ← Attribute.table pool
  return { minor, major, pool, flags := ⟨flags⟩, thisClass, superClass, interfaces, fields, methods,
           attributes }

def ofBytes (data : List UInt8) : Except Fault ClassFile := decode decoder data

def sourceFile (unit : ClassFile) : Option String := Attribute.sourceFileOf unit.attributes

def signature (unit : ClassFile) : Option String := Attribute.signatureOf unit.attributes

def innerClasses (unit : ClassFile) : List InnerClass := Attribute.innerClassesOf unit.attributes

def markedSynthetic (unit : ClassFile) : Bool := Attribute.marksSynthetic unit.attributes

def isSynthetic (unit : ClassFile) : Bool := unit.markedSynthetic || unit.flags.isSynthetic

/-- Whether the class file defines a type; those of modules and packages only describe them. -/
def definesType (unit : ClassFile) : Bool :=
  !unit.flags.isModule
    && !unit.thisClass.endsWith "/package-info"
    && unit.thisClass != "package-info"
    && unit.thisClass != "module-info"

def symbol (unit : ClassFile) : Symbol := .ofInternal unit.thisClass

/-- The first line of the nesting table that is about the class itself. -/
def selfEntry (unit : ClassFile) : Option InnerClass :=
  unit.innerClasses.find? (·.inner = unit.thisClass)

end ClassFile

end Linkage
