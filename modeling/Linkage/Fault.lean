import Linkage.Bytes.Hex

/-!
The ways in which the bytes of a class file or an archive can fail to decode, and the wording of
each. A fault says what is wrong with the data; which file the data came from is said by `Failure`.
-/

namespace Linkage

inductive ConstantKind
  | utf8
  | classInfo
  deriving DecidableEq, Repr

def ConstantKind.name : ConstantKind → String
  | .utf8 => "Utf8"
  | .classInfo => "Class"

inductive Fault
  /-- `wanted` bytes were asked for at `offset`, and fewer are there. -/
  | truncated (offset wanted : Nat)
  | badMagic (found : UInt32)
  | badConstantIndex (index : UInt16)
  | unknownConstantTag (tag : UInt8) (index : UInt16)
  | wrongConstantKind (index : UInt16) (expected : ConstantKind)
  | badDescriptor (text : String)
  | notAnArchive (reason : String)
  | unsupported (feature : String)
  | limitExceeded (what : String)
  | corruptEntry (entry reason : String)
  deriving DecidableEq, Repr

def Fault.message : Fault → String
  | .truncated offset wanted =>
      s!"unexpected end of data at offset {offset} (wanted {wanted} bytes)"
  | .badMagic found => s!"bad magic number 0x{Hex.digits 8 found.toNat}"
  | .badConstantIndex index => s!"invalid constant pool index {index}"
  | .unknownConstantTag tag index => s!"unknown constant pool tag {tag} at index {index}"
  | .wrongConstantKind index expected => s!"constant {index} is not a {expected.name}"
  | .badDescriptor text => s!"malformed descriptor `{text}`"
  | .notAnArchive reason => s!"not a zip archive: {reason}"
  | .unsupported feature => s!"unsupported archive feature: {feature}"
  | .limitExceeded what => s!"limit exceeded: {what}"
  | .corruptEntry entry reason => s!"corrupt archive entry `{entry}`: {reason}"

end Linkage
