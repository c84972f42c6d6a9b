import Linkage.Bytes.Cursor
import Linkage.Bytes.Utf8

/-!
The constant pool of a class file.

A pool is a row of slots numbered from 0. Slot 0 holds nothing, and so does the slot after an
eight-byte constant, which counts twice. Only the structure that leads to type names is kept;
numbers are passed over.
-/

namespace Linkage

/-- A constant. The fields are indices of other slots unless their names say otherwise. -/
inductive Constant
  | utf8 (text : String)
  | integer
  | float
  | long
  | double
  | classInfo (name : UInt16)
  | string (text : UInt16)
  | fieldRef (owner nameAndType : UInt16)
  | methodRef (owner nameAndType : UInt16)
  | interfaceMethodRef (owner nameAndType : UInt16)
  | nameAndType (name descriptor : UInt16)
  | methodHandle (referenceKind : UInt8) (reference : UInt16)
  | methodType (descriptor : UInt16)
  | dynamic (bootstrapMethod nameAndType : UInt16)
  | invokeDynamic (bootstrapMethod nameAndType : UInt16)
  | moduleInfo (name : UInt16)
  | packageInfo (name : UInt16)
  deriving DecidableEq, Repr

namespace Constant

def isWide : Constant → Bool
  | long | double => true
  | _ => false

open Decoder in
def decoder (index : UInt16) : Decoder Constant := do
  let tag ← u1
  match tag with
  | 1 => return utf8 (Utf8.decodeLossy (← bytes (← u2).toNat))
  | 3 => skip 4; return integer
  | 4 => skip 4; return float
  | 5 => skip 8; return long
  | 6 => skip 8; return double
  | 7 => return classInfo (← u2)
  | 8 => return string (← u2)
  | 9 => return fieldRef (← u2) (← u2)
  | 10 => return methodRef (← u2) (← u2)
  | 11 => return interfaceMethodRef (← u2) (← u2)
  | 12 => return nameAndType (← u2) (← u2)
  | 15 => return methodHandle (← u1) (← u2)
  | 16 => return methodType (← u2)
  | 17 => return dynamic (← u2) (← u2)
  | 18 => return invokeDynamic (← u2) (← u2)
  | 19 => return moduleInfo (← u2)
  | 20 => return packageInfo (← u2)
  | tag => throw (.unknownConstantTag tag index)

end Constant

structure Pool where
  slots : Array (Option Constant)
  deriving DecidableEq, Repr

namespace Pool

/-- Reads the last `left` slots of a pool, the slots before them being known. -/
def slotsDecoder (slots : Array (Option Constant)) :
    (left : Nat) → Decoder (Array (Option Constant))
  | 0 => pure slots
  | 1 => do
      let constant ← Constant.decoder (UInt16.ofNat slots.size)
      if constant.isWide then
        throw (.corruptEntry "constant pool" s!"8-byte constant in last slot {slots.size}")
      return slots.push constant
  | left + 2 => do
      let constant ← Constant.decoder (UInt16.ofNat slots.size)
      if constant.isWide then slotsDecoder ((slots.push constant).push none) left
      else slotsDecoder (slots.push constant) (left + 1)

/-- A pool behind its number of slots. Slot 0 is there even if the number is 0. -/
def decoder : Decoder Pool := do
  let count ← Decoder.u2
  return ⟨← slotsDecoder #[none] (count.toNat - 1)⟩

def size (pool : Pool) : Nat := pool.slots.size

def isEmpty (pool : Pool) : Bool := pool.size ≤ 1

def get (pool : Pool) (index : UInt16) : Except Fault Constant :=
  match pool.slots[index.toNat]? with
  | some (some constant) => .ok constant
  | _ => .error (.badConstantIndex index)

def utf8 (pool : Pool) (index : UInt16) : Except Fault String := do
  match ← pool.get index with
  | .utf8 text => pure text
  | _ => throw (.wrongConstantKind index .utf8)

/-- The internal name (or the array descriptor) that the class constant in a slot refers to. -/
def className (pool : Pool) (index : UInt16) : Except Fault String := do
  match ← pool.get index with
  | .classInfo name => pool.utf8 name
  | _ => throw (.wrongConstantKind index .classInfo)

/-- As `className`, where index 0 stands for no class. -/
def className? (pool : Pool) (index : UInt16) : Except Fault (Option String) :=
  if index = 0 then .ok none else some <$> pool.className index

def utf8? (pool : Pool) (index : UInt16) : Except Fault (Option String) :=
  if index = 0 then .ok none else some <$> pool.utf8 index

end Pool

end Linkage
