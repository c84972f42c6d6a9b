import Linkage.Proofs.ArchiveDirectory
import Linkage.Proofs.Inflation

/-!
# What is read of an archive

`Entry.Unpacks` is what a directory promises of an entry: its size, its checksum, and that its data
is what lies behind its header, or what this inflates to. An entry is read as the bytes of which
this holds, and as no others: `read_eq_ok`.
-/

namespace Linkage.Archive

open LittleEndian

structure Header where
  nameLength : UInt16
  extraLength : UInt16

namespace Header

def length (header : Header) : Nat :=
  headerLength + header.nameLength.toNat + header.extraLength.toNat

structure LiesAt (data : ByteArray) (place : Nat) (header : Header) : Prop where
  signature : HoldsAt data place (four headerSignature)
  nameLength : HoldsAt data (place + 26) (two header.nameLength)
  extraLength : HoldsAt data (place + 28) (two header.extraLength)

end Header

namespace Entry

structure LiesBehind (data : ByteArray) (entry : Entry) (header : Header) (payload : ByteArray) :
    Prop where
  placed : header.LiesAt data entry.headerOffset
  inside : entry.headerOffset + header.length + entry.compressedSize ≤ data.size
  payload : data.extract (entry.headerOffset + header.length)
    (entry.headerOffset + header.length + entry.compressedSize) = payload

def StandsFor (entry : Entry) (payload bytes : ByteArray) : Prop :=
  entry.method = 0 ∧ payload = bytes ∨ entry.method = 8 ∧ Deflate.Inflates payload bytes

structure Unpacks (limits : Limits) (data : ByteArray) (entry : Entry) (bytes : ByteArray) :
    Prop where
  plain : entry.flags &&& 1 = 0
  permitted : entry.size ≤ limits.entryBytes
  size : bytes.size = entry.size
  checksum : Crc32.ofBytes bytes = entry.checksum
  stands : ∃ header payload, entry.LiesBehind data header payload ∧ entry.StandsFor payload bytes

variable {entry : Entry} {raw bytes : ByteArray}

theorem isEncrypted_iff : entry.isEncrypted = true ↔ ¬ entry.flags &&& 1 = 0 := bne_iff_ne

theorem expand_eq_ok :
    entry.expand raw = .ok bytes ↔ bytes.size = entry.size ∧ entry.StandsFor raw bytes := by
  constructor
  · intro given
    unfold expand at given
    split at given
    case isTrue stored =>
      split at given
      case isTrue size =>
        cases given
        exact ⟨size, .inl ⟨stored, rfl⟩⟩
      case isFalse => cases given
    case isFalse =>
      split at given
      case isTrue deflated =>
        cases ran : Deflate.inflate entry.size raw with
        | error stop =>
          rw [ran] at given
          cases stop <;> cases given
        | ok found =>
          rw [ran] at given
          dsimp only at given
          split at given
          case isTrue size =>
            cases given
            exact ⟨size, .inr ⟨deflated, (Deflate.inflate_eq_ok.mp ran).1⟩⟩
          case isFalse => cases given
      case isFalse => cases given
  · rintro ⟨size, ⟨stored, rfl⟩ | ⟨deflated, inflates⟩⟩
    · rw [expand, if_pos stored, if_pos size]
    · have ran := Deflate.inflate_eq_ok.mpr ⟨inflates, Nat.le_of_eq size⟩
      simp [expand, deflated, ran, size]

end Entry

variable {archive : Archive} {limits : Limits} {entry : Entry} {raw bytes : ByteArray}

theorem rawBytes_eq_ok : archive.rawBytes entry = .ok raw ↔
    ∃ header, entry.LiesBehind archive.data header raw := by
  constructor
  · intro read
    unfold rawBytes at read
    obtain ⟨signature, signed, read⟩ := bind_eq_ok.mp read
    obtain ⟨known, read⟩ := check_eq_ok.mp read
    obtain ⟨nameLength, nameLengthRead, read⟩ := bind_eq_ok.mp read
    obtain ⟨extraLength, extraLengthRead, read⟩ := bind_eq_ok.mp read
    obtain ⟨inside, sliced⟩ := sliceAt_eq_ok.mp read
    have placed : Header.LiesAt archive.data entry.headerOffset ⟨nameLength, extraLength⟩ :=
      ⟨u32At_eq_ok.mp (not_not.mp known ▸ signed), u16At_eq_ok.mp nameLengthRead,
        u16At_eq_ok.mp extraLengthRead⟩
    simp only [Nat.add_assoc] at inside sliced
    exact ⟨_, placed, by simpa only [Header.length, Nat.add_assoc] using inside,
      by simpa only [Header.length, Nat.add_assoc] using sliced⟩
  · rintro ⟨header, placed, inside, sliced⟩
    have read := sliceAt_eq_ok.mpr ⟨inside, sliced⟩
    rw [Header.length, ← Nat.add_assoc, ← Nat.add_assoc] at read
    simp only [rawBytes, bind, Except.bind, placed.signature.u32, ne_eq, not_true, if_false,
      placed.nameLength.u16, placed.extraLength.u16, read]

theorem read_eq_ok :
    archive.read limits entry = .ok bytes ↔ entry.Unpacks limits archive.data bytes := by
  constructor
  · intro given
    unfold read at given
    obtain ⟨plain, given⟩ := check_eq_ok.mp given
    obtain ⟨permitted, given⟩ := check_eq_ok.mp given
    obtain ⟨payload, lies, given⟩ := bind_eq_ok.mp given
    obtain ⟨expanded, stands, given⟩ := bind_eq_ok.mp given
    obtain ⟨checked, given⟩ := check_eq_ok.mp given
    obtain rfl := pure_eq_ok.mp given
    obtain ⟨header, lies⟩ := rawBytes_eq_ok.mp lies
    obtain ⟨size, stands⟩ := Entry.expand_eq_ok.mp stands
    exact ⟨not_not.mp (mt Entry.isEncrypted_iff.mpr plain), Nat.not_lt.mp permitted, size,
      not_not.mp checked, header, payload, lies, stands⟩
  · rintro ⟨plain, permitted, size, checksum, header, payload, lies, stands⟩
    unfold read
    refine check_eq_ok.mpr ⟨mt Entry.isEncrypted_iff.mp (not_not.mpr plain), ?_⟩
    refine check_eq_ok.mpr ⟨Nat.not_lt.mpr permitted, ?_⟩
    refine bind_eq_ok.mpr ⟨payload, rawBytes_eq_ok.mpr ⟨header, lies⟩, ?_⟩
    refine bind_eq_ok.mpr ⟨bytes, Entry.expand_eq_ok.mpr ⟨size, stands⟩, ?_⟩
    exact check_eq_ok.mpr ⟨not_not.mpr checksum, rfl⟩

end Linkage.Archive
