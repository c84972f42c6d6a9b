import Linkage.ClassFile.Basic
import Linkage.Signature
import Linkage.SymbolSet

/-!
The types that a class file refers to: in its constants, in the signatures and descriptors of the
class and its members, in annotations, and in the types of local variables. The class itself is
among them.
-/

namespace Linkage

/-- The class that a class constant stands for. One that opens with a square bracket is the
descriptor of an array type, and the array's element type is meant. -/
def classOfConstant (name : String) : Except Fault (Option String) :=
  if name.startsWith "[" then
    FieldType.className? <$> FieldType.ofDescriptor name
  else
    .ok (some name)

namespace Constant

def references (pool : Pool) : Constant → Except Fault (List String)
  | classInfo name => do
      let name ← pool.utf8 name
      return (← classOfConstant name).toList
  | nameAndType _ descriptor | methodType descriptor => do
      let descriptor ← pool.utf8 descriptor
      Signature.classNames descriptor
  | _ => return []

end Constant

def referencesOf (signatures : List String) : Except Fault (List String) :=
  List.flatten <$> signatures.mapM Signature.classNames

def Member.signatures (member : Member) : List String :=
  member.descriptor :: member.signature.toList
    ++ member.attributes.flatMap Attribute.descriptors
    ++ member.attributes.flatMap Attribute.localTypes

namespace ClassFile

def signatures (unit : ClassFile) : List String :=
  unit.signature.toList ++ unit.attributes.flatMap Attribute.descriptors
    ++ (unit.fields ++ unit.methods).flatMap Member.signatures

/-- The internal names of the classes that a class file refers to, repeated as found. -/
def references (unit : ClassFile) : Except Fault (List String) := do
  let constants := unit.pool.slots.toList.filterMap id
  let fromPool ← constants.mapM (Constant.references unit.pool)
  return fromPool.flatten ++ (← referencesOf unit.signatures)

end ClassFile

end Linkage
