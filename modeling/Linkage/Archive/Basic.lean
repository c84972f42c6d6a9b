import Linkage.Archive.Crc32
import Linkage.Archive.Deflate
import Linkage.Bytes.LittleEndian
import Linkage.Bytes.Utf8
import Linkage.Limits

/-!
Archives in the ZIP format.

An archive ends with an end record, which tells where its central directory lies. The directory
has a record for each entry: its name, its sizes and where its data is. Entries are stored or
deflated. Encrypted entries and the 64-bit form of the format are refused, and every size is checked
before any data is read.
-/

namespace Linkage

structure Archive.Entry where
  name : String
  method : UInt16
  flags : UInt16
  checksum : UInt32
  compressedSize : Nat
  size : Nat
  headerOffset : Nat
  deriving DecidableEq, Repr

structure Archive where
  data : ByteArray
  entries : List Archive.Entry

namespace Archive

open LittleEndian

def endLength : Nat := 22

def recordLength : Nat := 46

def headerLength : Nat := 30

def maxCommentLength : Nat := 0xFFFF

def endSignature : UInt32 := 0x06054b50

def recordSignature : UInt32 := 0x02014b50

def headerSignature : UInt32 := 0x04034b50

/-- The value of a field whose true value is in the 64-bit form of the format. -/
def elsewhere : UInt32 := 0xFFFFFFFF

/-- The last of `count` offsets from `first` on at which an end record opens. -/
def lastEndRecord? (data : ByteArray) (first : Nat) : (count : Nat) → Option Nat
  | 0 => none
  | count + 1 =>
    match u32At data (first + count) with
    | .ok signature =>
      if signature = endSignature then some (first + count) else lastEndRecord? data first count
    | .error _ => lastEndRecord? data first count

/-- Where the end record is: the last place that leaves room for it and at most the longest
comment. -/
def endRecord (data : ByteArray) : Except Fault Nat := do
  if data.size < endLength then throw (.notAnArchive "too short")
  let last := data.size - endLength
  let first := last - maxCommentLength
  match lastEndRecord? data first (last + 1 - first) with
  | some offset => return offset
  | none => throw (.notAnArchive "no end of central directory record")

def recordAt (data : ByteArray) (directoryEnd offset : Nat) : Except Fault (Entry × Nat) := do
  let bad : Fault := .notAnArchive s!"bad central directory record at {offset}"
  if directoryEnd < offset + recordLength then throw bad
  if (← u32At data offset) ≠ recordSignature then throw bad
  let flags ← u16At data (offset + 8)
  let method ← u16At data (offset + 10)
  let checksum ← u32At data (offset + 16)
  let compressed ← u32At data (offset + 20)
  let size ← u32At data (offset + 24)
  let nameLength ← u16At data (offset + 28)
  let extraLength ← u16At data (offset + 30)
  let commentLength ← u16At data (offset + 32)
  let header ← u32At data (offset + 42)
  if compressed = elsewhere ∨ size = elsewhere ∨ header = elsewhere then
    throw (.unsupported "zip64 entry")
  let name ← sliceAt data (offset + recordLength) nameLength.toNat
  let entry := {
    name := Utf8.decodeLossy name.data.toList, method, flags, checksum,
    compressedSize := compressed.toNat, size := size.toNat, headerOffset := header.toNat }
  return (entry,
    offset + recordLength + nameLength.toNat + extraLength.toNat + commentLength.toNat)

def records (data : ByteArray) (directoryEnd : Nat) (before : List Entry) :
    (count offset : Nat) → Except Fault (List Entry)
  | 0, _ => return before.reverse
  | count + 1, offset => do
      let (entry, next) ← recordAt data directoryEnd offset
      records data directoryEnd (entry :: before) count next

def ofBytes (limits : Limits) (data : ByteArray) : Except Fault Archive := do
  if limits.archiveBytes < data.size then
    throw (.limitExceeded s!"archive is {data.size} bytes (max {limits.archiveBytes})")
  let endOffset ← endRecord data
  let count ← u16At data (endOffset + 10)
  let size ← u32At data (endOffset + 12)
  let offset ← u32At data (endOffset + 16)
  if count = 0xFFFF ∨ size = elsewhere ∨ offset = elsewhere then
    throw (.unsupported "zip64 archive")
  if limits.archiveEntries < count.toNat then
    throw (.limitExceeded s!"archive declares {count} entries (max {limits.archiveEntries})")
  if endOffset < offset.toNat + size.toNat then
    throw (.notAnArchive "central directory out of bounds")
  return { data, entries := ← records data (offset.toNat + size.toNat) [] count.toNat offset.toNat }

namespace Entry

def isDirectory (entry : Entry) : Bool := entry.name.endsWith "/"

def isClass (entry : Entry) : Bool := entry.name.endsWith ".class"

def isEncrypted (entry : Entry) : Bool := entry.flags &&& 1 != 0

def corrupt (entry : Entry) (reason : String) : Fault := .corruptEntry entry.name reason

def expand (entry : Entry) (raw : ByteArray) : Except Fault ByteArray :=
  if entry.method = 0 then
    if raw.size = entry.size then .ok raw else .error (entry.corrupt "stored size mismatch")
  else if entry.method = 8 then
    let wrongSize (size : Nat) : Fault :=
      entry.corrupt s!"inflated {size} bytes, expected {entry.size}"
    match Deflate.inflate entry.size raw with
    | .ok bytes => if bytes.size = entry.size then .ok bytes else .error (wrongSize bytes.size)
    | .error .tooLong => .error (wrongSize (entry.size + 1))
    | .error .incomplete => .error (entry.corrupt "incomplete deflate stream")
    | .error .corrupt => .error (entry.corrupt "corrupt deflate stream")
  else
    .error (.unsupported s!"compression method {entry.method} in {entry.name}")

end Entry

def rawBytes (archive : Archive) (entry : Entry) : Except Fault ByteArray := do
  let header := entry.headerOffset
  if (← u32At archive.data header) ≠ headerSignature then
    throw (entry.corrupt "bad local header signature")
  let nameLength ← u16At archive.data (header + 26)
  let extraLength ← u16At archive.data (header + 28)
  let start := header + headerLength + nameLength.toNat + extraLength.toNat
  sliceAt archive.data start entry.compressedSize

def read (limits : Limits) (archive : Archive) (entry : Entry) : Except Fault ByteArray := do
  if entry.isEncrypted then throw (.unsupported s!"encrypted entry {entry.name}")
  if limits.entryBytes < entry.size then
    throw (.limitExceeded
      s!"entry {entry.name} is {entry.size} bytes (max {limits.entryBytes})")
  let bytes ← entry.expand (← archive.rawBytes entry)
  if Crc32.ofBytes bytes ≠ entry.checksum then throw (entry.corrupt "crc mismatch")
  return bytes

end Archive

end Linkage
