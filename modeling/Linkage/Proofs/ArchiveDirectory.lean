import Linkage.Archive.Basic
import Linkage.Proofs.LittleEndian
import Linkage.Proofs.Runs

/-!
# The directory of an archive

`Archive.Record` is what a directory record says, and `Archive.Spans` has the records of some
entries follow each other without a gap. The entries of an archive that opens span the directory
from its start on: `ofBytes_spans`. Where they end is not looked at, so that they may leave the
directory or leave some of it out. They fill it if as many records as the end record says can.
-/

namespace Linkage.Archive

open LittleEndian

variable {data : ByteArray} {place directoryEnd : Nat}

structure Record where
  flags : UInt16
  method : UInt16
  checksum : UInt32
  compressedSize : UInt32
  size : UInt32
  extraLength : UInt16
  commentLength : UInt16
  headerOffset : UInt32
  name : List UInt8

namespace Record

def length (record : Record) : Nat :=
  recordLength + record.name.length + record.extraLength.toNat + record.commentLength.toNat

def entry (record : Record) : Entry where
  name := Utf8.decodeLossy record.name
  method := record.method
  flags := record.flags
  checksum := record.checksum
  compressedSize := record.compressedSize.toNat
  size := record.size.toNat
  headerOffset := record.headerOffset.toNat

/-- Whether a record is at a place in the data. The extra field and the comment, of which only the
lengths are known, may reach over the end of the data. -/
structure LiesAt (data : ByteArray) (place : Nat) (record : Record) : Prop where
  signature : HoldsAt data place (four recordSignature)
  flags : HoldsAt data (place + 8) (two record.flags)
  method : HoldsAt data (place + 10) (two record.method)
  checksum : HoldsAt data (place + 16) (four record.checksum)
  compressedSize : HoldsAt data (place + 20) (four record.compressedSize)
  size : HoldsAt data (place + 24) (four record.size)
  nameLength : HoldsAt data (place + 28) (two (UInt16.ofNat record.name.length))
  extraLength : HoldsAt data (place + 30) (two record.extraLength)
  commentLength : HoldsAt data (place + 32) (two record.commentLength)
  headerOffset : HoldsAt data (place + 42) (four record.headerOffset)
  name : HoldsAt data (place + recordLength) record.name
  short : record.name.length < 2 ^ 16
  given : ¬ (record.compressedSize = elsewhere ∨ record.size = elsewhere ∨
    record.headerOffset = elsewhere)

end Record

theorem Record.LiesAt.recordAt {record : Record} (lies : record.LiesAt data place)
    (room : place + recordLength ≤ directoryEnd) :
    recordAt data directoryEnd place = .ok (record.entry, place + record.length) := by
  have nameLength := lies.nameLength.u16
  have name := lies.name.slice rfl
  unfold Archive.recordAt
  simp only [bind, Except.bind, pure, Except.pure, Nat.not_lt.mpr room, if_false,
    lies.signature.u32, ne_eq, not_true, lies.flags.u16, lies.method.u16, lies.checksum.u32,
    lies.compressedSize.u32, lies.size.u32, nameLength, lies.extraLength.u16,
    lies.commentLength.u16, lies.headerOffset.u32, lies.given,
    UInt16.toNat_ofNat_of_lt' lies.short, name]
  simp only [Record.entry, Record.length, Nat.add_assoc]

theorem recordAt_eq_ok {entry : Entry} {next : Nat} :
    recordAt data directoryEnd place = .ok (entry, next) ↔ ∃ record : Record,
      record.LiesAt data place ∧ place + recordLength ≤ directoryEnd ∧ record.entry = entry ∧
      place + record.length = next := by
  constructor
  · intro read
    unfold recordAt at read
    obtain ⟨room, read⟩ := check_eq_ok.mp read
    obtain ⟨signature, signed, read⟩ := bind_eq_ok.mp read
    obtain ⟨known, read⟩ := check_eq_ok.mp read
    obtain ⟨flags, flagsRead, read⟩ := bind_eq_ok.mp read
    obtain ⟨method, methodRead, read⟩ := bind_eq_ok.mp read
    obtain ⟨checksum, checksumRead, read⟩ := bind_eq_ok.mp read
    obtain ⟨compressed, compressedRead, read⟩ := bind_eq_ok.mp read
    obtain ⟨size, sizeRead, read⟩ := bind_eq_ok.mp read
    obtain ⟨nameLength, nameLengthRead, read⟩ := bind_eq_ok.mp read
    obtain ⟨extraLength, extraLengthRead, read⟩ := bind_eq_ok.mp read
    obtain ⟨commentLength, commentLengthRead, read⟩ := bind_eq_ok.mp read
    obtain ⟨header, headerRead, read⟩ := bind_eq_ok.mp read
    obtain ⟨given, read⟩ := check_eq_ok.mp read
    obtain ⟨name, nameRead, read⟩ := bind_eq_ok.mp read
    obtain ⟨inside, rfl⟩ := sliceAt_eq_ok.mp nameRead
    obtain ⟨rfl, rfl⟩ := Prod.mk.inj (pure_eq_ok.mp read)
    have length : (data.extract (place + recordLength)
        (place + recordLength + nameLength.toNat)).data.toList.length = nameLength.toNat := by
      simp
      omega
    refine ⟨⟨flags, method, checksum, compressed, size, extraLength, commentLength, header, _⟩, ?_,
      Nat.not_lt.mp room, rfl, ?_⟩
    · refine ⟨u32At_eq_ok.mp (not_not.mp known ▸ signed), u16At_eq_ok.mp flagsRead,
        u16At_eq_ok.mp methodRead, u32At_eq_ok.mp checksumRead, u32At_eq_ok.mp compressedRead,
        u32At_eq_ok.mp sizeRead, ?_, u16At_eq_ok.mp extraLengthRead,
        u16At_eq_ok.mp commentLengthRead, u32At_eq_ok.mp headerRead, holdsAt_slice inside, ?_,
        given⟩
      · rw [length, UInt16.ofNat_toNat]
        exact u16At_eq_ok.mp nameLengthRead
      · rw [length]
        exact nameLength.toNat_lt
    · dsimp only [Record.length]
      rw [length]
      omega
  · rintro ⟨record, lies, room, rfl, rfl⟩
    exact lies.recordAt room

/-! ## Records in a row -/

/-- Whether the records of some entries lie in a row, the first at `first` and each next one where
the one before it ends, which the last one does at `last`. The fixed part of each lies before
`directoryEnd`. -/
inductive Spans (data : ByteArray) (directoryEnd : Nat) :
    (first : Nat) → List Entry → (last : Nat) → Prop
  | nil {place : Nat} : Spans data directoryEnd place [] place
  | cons {place last : Nat} {record : Record} {entries : List Entry}
      (lies : record.LiesAt data place) (inside : place + recordLength ≤ directoryEnd)
      (rest : Spans data directoryEnd (place + record.length) entries last) :
      Spans data directoryEnd place (record.entry :: entries) last

variable {first last : Nat} {entries : List Entry}

theorem records_eq_ok {before found : List Entry} {count : Nat} :
    records data directoryEnd before count first = .ok found ↔ ∃ entries last,
      before.reverse ++ entries = found ∧ entries.length = count ∧
      Spans data directoryEnd first entries last := by
  -- What was read before is kept in reverse, so the induction is for any of it.
  induction count generalizing first before with
  | zero =>
    rw [records, pure_eq_ok]
    constructor
    · rintro rfl
      exact ⟨[], first, List.append_nil _, rfl, .nil⟩
    · rintro ⟨entries, last, rfl, none, -⟩
      rw [List.length_eq_zero_iff.mp none, List.append_nil]
  | succ count ih =>
    rw [records, bind_eq_ok]
    constructor
    · rintro ⟨⟨entry, next⟩, read, more⟩
      obtain ⟨record, lies, inside, rfl, rfl⟩ := recordAt_eq_ok.mp read
      obtain ⟨entries, last, rfl, rfl, spans⟩ := ih.mp more
      exact ⟨record.entry :: entries, last, by simp, rfl, .cons lies inside spans⟩
    · rintro ⟨entries, last, rfl, length, spans⟩
      cases spans with
      | nil => cases length
      | @cons _ _ record entries lies inside rest =>
        refine ⟨_, lies.recordAt inside, ih.mpr ?_⟩
        exact ⟨entries, last, by simp, Nat.succ.inj length, rest⟩

theorem Spans.le (spans : Spans data directoryEnd first entries last) : first ≤ last := by
  induction spans with
  | nil => exact Nat.le_refl _
  | cons _ _ _ ih => exact Nat.le_trans (Nat.le_add_right _ _) ih

theorem Spans.mem_entry {entry : Entry} (spans : Spans data directoryEnd first entries last)
    (member : entry ∈ entries) :
    ∃ (place : Nat) (record : Record), record.LiesAt data place ∧ record.entry = entry ∧
      first ≤ place ∧ place + record.length ≤ last := by
  induction spans with
  | nil => exact absurd member List.not_mem_nil
  | cons lies _ rest ih =>
    rcases List.mem_cons.mp member with rfl | later
    · exact ⟨_, _, lies, rfl, Nat.le_refl _, rest.le⟩
    · obtain ⟨place, record, lies, described, after, before⟩ := ih later
      exact ⟨place, record, lies, described, Nat.le_trans (Nat.le_add_right _ _) after, before⟩

theorem Spans.unique {entries' : List Entry} {last' : Nat}
    (spans : Spans data directoryEnd first entries last)
    (spans' : Spans data directoryEnd first entries' last')
    (length : entries.length = entries'.length) : entries = entries' ∧ last = last' := by
  induction spans generalizing entries' with
  | nil =>
    cases spans' with
    | nil => exact ⟨rfl, rfl⟩
    | cons => cases length
  | cons lies inside _ ih =>
    cases spans' with
    | nil => cases length
    | cons lies' _ rest' =>
      -- Both records are what is read at the place, though their names are lists of their own.
      have read := lies.recordAt inside
      rw [lies'.recordAt inside] at read
      obtain ⟨entry, next⟩ := Prod.mk.inj (Except.ok.inj read)
      rw [next] at rest'
      obtain ⟨rest, ends⟩ := ih rest' (Nat.succ.inj length)
      exact ⟨by rw [entry, rest], ends⟩

/-! ## The end record -/

/-- Whether an end record is at a place, not too far from the end, and no other one follows. -/
structure EndsAt (data : ByteArray) (place : Nat) : Prop where
  signature : HoldsAt data place (four endSignature)
  room : place + endLength ≤ data.size
  near : data.size ≤ place + endLength + maxCommentLength
  last : ∀ offset, place < offset → offset + endLength ≤ data.size →
    ¬ HoldsAt data offset (four endSignature)

theorem lastEndRecord?_succ {count : Nat}
    (absent : ¬ HoldsAt data (first + count) (four endSignature)) :
    lastEndRecord? data first (count + 1) = lastEndRecord? data first count := by
  rw [lastEndRecord?]
  cases read : u32At data (first + count) with
  | error fault => rfl
  | ok signature =>
    have other : signature ≠ endSignature := fun same => absent (u32At_eq_ok.mp (same ▸ read))
    exact if_neg other

theorem lastEndRecord?_here {count : Nat}
    (here : HoldsAt data (first + count) (four endSignature)) :
    lastEndRecord? data first (count + 1) = some (first + count) := by
  rw [lastEndRecord?, here.u32]
  exact if_pos rfl

theorem lastEndRecord?_eq_some {count : Nat} : lastEndRecord? data first count = some place ↔
    HoldsAt data place (four endSignature) ∧ first ≤ place ∧ place < first + count ∧
      ∀ offset, place < offset → offset < first + count →
        ¬ HoldsAt data offset (four endSignature) := by
  induction count with
  | zero => exact ⟨nofun, fun ⟨_, after, before, _⟩ => absurd before (Nat.not_lt.mpr after)⟩
  | succ count ih =>
    by_cases here : HoldsAt data (first + count) (four endSignature)
    · rw [lastEndRecord?_here here]
      constructor
      · rintro ⟨⟩
        exact ⟨here, Nat.le_add_right _ _, Nat.lt_succ_self _, fun offset later => by omega⟩
      · rintro ⟨-, -, within, last⟩
        by_cases earlier : place < first + count
        · exact absurd here (last _ earlier (Nat.lt_succ_self _))
        · exact congrArg some (by omega)
    · rw [lastEndRecord?_succ here, ih]
      constructor
      · rintro ⟨held, after, within, last⟩
        refine ⟨held, after, by omega, fun offset later bound => ?_⟩
        rcases Nat.lt_succ_iff_lt_or_eq.mp bound with before | rfl
        · exact last offset later before
        · exact here
      · rintro ⟨held, after, within, last⟩
        have other : place ≠ first + count := fun same => here (same ▸ held)
        exact ⟨held, after, by omega, fun offset later bound => last offset later (by omega)⟩

theorem endRecord_eq_ok : endRecord data = .ok place ↔ EndsAt data place := by
  unfold endRecord
  constructor
  · intro found
    obtain ⟨long, found⟩ := check_eq_ok.mp found
    dsimp only at found
    split at found
    case h_1 found' =>
      cases found
      obtain ⟨held, after, within, last⟩ := lastEndRecord?_eq_some.mp found'
      exact ⟨held, by omega, by omega, fun offset later room => last offset later (by omega)⟩
    case h_2 => cases found
  · rintro ⟨held, room, near, last⟩
    refine check_eq_ok.mpr ⟨by omega, ?_⟩
    have found := lastEndRecord?_eq_some.mpr ⟨held, (by omega :
      data.size - endLength - maxCommentLength ≤ place), (by omega : place <
        data.size - endLength - maxCommentLength +
          (data.size - endLength + 1 - (data.size - endLength - maxCommentLength))),
      fun offset later within => last offset later (by omega)⟩
    dsimp only
    rw [found]
    rfl

/-! ## The directory -/

structure Directory where
  count : UInt16
  size : UInt32
  offset : UInt32

namespace Directory

def start (directory : Directory) : Nat := directory.offset.toNat

def stop (directory : Directory) : Nat := directory.offset.toNat + directory.size.toNat

structure LiesAt (data : ByteArray) (place : Nat) (directory : Directory) : Prop where
  count : HoldsAt data (place + 10) (two directory.count)
  size : HoldsAt data (place + 12) (four directory.size)
  offset : HoldsAt data (place + 16) (four directory.offset)

structure Fits (limits : Limits) (place : Nat) (directory : Directory) : Prop where
  given : ¬ (directory.count = 0xFFFF ∨ directory.size = elsewhere ∨ directory.offset = elsewhere)
  few : directory.count.toNat ≤ limits.archiveEntries
  within : directory.stop ≤ place

/-- Whether the records of some entries fill the directory from its first byte to its last. -/
def TiledBy (data : ByteArray) (directory : Directory) (entries : List Entry) : Prop :=
  Spans data directory.stop directory.start entries directory.stop

end Directory

theorem ofBytes_eq_ok {limits : Limits} {archive : Archive} :
    ofBytes limits data = .ok archive ↔
      archive.data = data ∧ data.size ≤ limits.archiveBytes ∧
      ∃ (place : Nat) (directory : Directory) (last : Nat), EndsAt data place ∧
        directory.LiesAt data place ∧ directory.Fits limits place ∧
        archive.entries.length = directory.count.toNat ∧
        Spans data directory.stop directory.start archive.entries last := by
  unfold ofBytes
  constructor
  · intro opened
    obtain ⟨permitted, opened⟩ := check_eq_ok.mp opened
    obtain ⟨place, ended, opened⟩ := bind_eq_ok.mp opened
    obtain ⟨count, countRead, opened⟩ := bind_eq_ok.mp opened
    obtain ⟨size, sizeRead, opened⟩ := bind_eq_ok.mp opened
    obtain ⟨offset, offsetRead, opened⟩ := bind_eq_ok.mp opened
    obtain ⟨given, opened⟩ := check_eq_ok.mp opened
    obtain ⟨few, opened⟩ := check_eq_ok.mp opened
    obtain ⟨within, opened⟩ := check_eq_ok.mp opened
    obtain ⟨_, listed, done⟩ := bind_eq_ok.mp opened
    cases done
    obtain ⟨_, last, rfl, length, spans⟩ := records_eq_ok.mp listed
    have lies : Directory.LiesAt data place ⟨count, size, offset⟩ :=
      ⟨u16At_eq_ok.mp countRead, u32At_eq_ok.mp sizeRead, u32At_eq_ok.mp offsetRead⟩
    exact ⟨rfl, Nat.not_lt.mp permitted, place, _, last, endRecord_eq_ok.mp ended, lies,
      ⟨given, Nat.not_lt.mp few, Nat.not_lt.mp within⟩, length, spans⟩
  · rintro ⟨rfl, permitted, place, directory, last, ended, lies, fits, length, spans⟩
    have listed : records archive.data directory.stop [] directory.count.toNat directory.start =
        .ok archive.entries := records_eq_ok.mpr ⟨archive.entries, last, rfl, length, spans⟩
    refine check_eq_ok.mpr ⟨Nat.not_lt.mpr permitted, ?_⟩
    refine bind_eq_ok.mpr ⟨place, endRecord_eq_ok.mpr ended, ?_⟩
    refine bind_eq_ok.mpr ⟨_, lies.count.u16, bind_eq_ok.mpr ⟨_, lies.size.u32, ?_⟩⟩
    refine bind_eq_ok.mpr ⟨_, lies.offset.u32, check_eq_ok.mpr ⟨fits.given, ?_⟩⟩
    refine check_eq_ok.mpr ⟨Nat.not_lt.mpr fits.few, ?_⟩
    exact check_eq_ok.mpr ⟨Nat.not_lt.mpr fits.within, bind_eq_ok.mpr ⟨_, listed, rfl⟩⟩

/-- The entries of an archive are described by a row of records from the start of its directory on,
as many as the end record says. They fill the directory whenever so many records can, and nothing of
them is then outside. -/
theorem ofBytes_spans {limits : Limits} {archive : Archive}
    (opened : ofBytes limits data = .ok archive) :
    ∃ (place : Nat) (directory : Directory) (last : Nat), EndsAt data place ∧
      directory.LiesAt data place ∧ directory.stop ≤ place ∧
      archive.entries.length = directory.count.toNat ∧
      Spans data directory.stop directory.start archive.entries last ∧
      (directory.TiledBy data archive.entries ↔
        ∃ entries, entries.length = directory.count.toNat ∧ directory.TiledBy data entries) ∧
      (directory.TiledBy data archive.entries → ∀ entry ∈ archive.entries,
        ∃ (place : Nat) (record : Record), record.LiesAt data place ∧ record.entry = entry ∧
          directory.start ≤ place ∧ place + record.length ≤ directory.stop) := by
  obtain ⟨-, -, place, directory, last, ended, lies, fits, length, spans⟩ := ofBytes_eq_ok.mp opened
  refine ⟨place, directory, last, ended, lies, fits.within, length, spans, ⟨?_, ?_⟩, ?_⟩
  · exact fun tiled => ⟨archive.entries, length, tiled⟩
  · rintro ⟨entries, same, tiled⟩
    obtain ⟨rfl, -⟩ := spans.unique tiled (length.trans same.symm)
    exact tiled
  · exact fun tiled entry member => tiled.mem_entry member

/-! ## An archive with one entry -/

namespace Lone

def payload : ByteArray := ⟨#[0x68, 0x69]⟩

def record : Record := ⟨0, 0, Crc32.ofBytes payload, 2, 2, 0, 0, 0, [0x41]⟩

def directory (size : UInt32) : Directory := ⟨1, size, 32⟩

/-- An archive that says some size of its directory, which takes 47 bytes. -/
def pieces (size : UInt32) : List (List UInt8) :=
  [four headerSignature, List.replicate 22 0, two 0, two 0, payload.data.toList,
    four recordSignature, List.replicate 4 0, two record.flags, two record.method,
    List.replicate 4 0, four record.checksum, four record.compressedSize, four record.size,
    two (UInt16.ofNat record.name.length), two record.extraLength, two record.commentLength,
    List.replicate 8 0, four record.headerOffset, record.name,
    four endSignature, List.replicate 6 0, two (directory size).count, four (directory size).size,
    four (directory size).offset, two 0]

def bytes (size : UInt32) : ByteArray := ⟨(pieces size).flatten.toArray⟩

variable {size : UInt32}

theorem holds : HoldsAt (bytes size) 0 (pieces size).flatten := by
  refine ⟨[], [], ?_, List.length_nil⟩
  rw [List.append_nil, List.nil_append, bytes, List.toList_toArray]

theorem record_lies : record.LiesAt (bytes size) (directory size).start where
  signature := holds.piece 5 32 rfl rfl
  flags := holds.piece 7 40 rfl rfl
  method := holds.piece 8 42 rfl rfl
  checksum := holds.piece 10 48 rfl rfl
  compressedSize := holds.piece 11 52 rfl rfl
  size := holds.piece 12 56 rfl rfl
  nameLength := holds.piece 13 60 rfl rfl
  extraLength := holds.piece 14 62 rfl rfl
  commentLength := holds.piece 15 64 rfl rfl
  headerOffset := holds.piece 17 74 rfl rfl
  name := holds.piece 18 78 rfl rfl
  short := by decide
  given := by decide

theorem directory_lies : (directory size).LiesAt (bytes size) 79 where
  count := holds.piece 21 89 rfl rfl
  size := holds.piece 22 91 rfl rfl
  offset := holds.piece 23 95 rfl rfl

theorem ends : EndsAt (bytes size) 79 where
  signature := holds.piece 19 79 rfl rfl
  room := Nat.le_refl 101
  near := (by decide : 101 ≤ 79 + endLength + maxCommentLength)
  last offset later room := by
    have long : offset + 22 ≤ 101 := room
    omega

theorem spans (enough : 46 ≤ size.toNat) :
    Spans (bytes size) (directory size).stop (directory size).start [record.entry] 79 :=
  .cons record_lies (Nat.add_le_add_left enough 32) .nil

theorem opens (enough : 46 ≤ size.toNat) (inside : size.toNat ≤ 47) :
    ofBytes {} (bytes size) = .ok ⟨bytes size, [record.entry]⟩ := by
  have small : size ≠ elsewhere := by
    rintro rfl
    exact absurd inside (by decide)
  have given : ¬ ((1 : UInt16) = 0xFFFF ∨ size = elsewhere ∨ (32 : UInt32) = elsewhere) := by
    rintro (same | same | same)
    · exact absurd same (by decide)
    · exact small same
    · exact absurd same (by decide)
  have few : 1 ≤ ({} : Limits).archiveEntries := by decide
  have permitted : 101 ≤ ({} : Limits).archiveBytes := by decide
  have fits : (directory size).Fits {} 79 := ⟨given, few, Nat.add_le_add_left inside 32⟩
  exact ofBytes_eq_ok.mpr
    ⟨rfl, permitted, 79, directory size, 79, ends, directory_lies, fits, rfl, spans enough⟩

end Lone

theorem ofBytes_spans_lone : ofBytes {} (Lone.bytes 47) = .ok ⟨Lone.bytes 47, [Lone.record.entry]⟩ ∧
    ∃ (place : Nat) (directory : Directory) (last : Nat), EndsAt (Lone.bytes 47) place ∧
      directory.LiesAt (Lone.bytes 47) place ∧ directory.stop ≤ place ∧
      [Lone.record.entry].length = directory.count.toNat ∧
      Spans (Lone.bytes 47) directory.stop directory.start [Lone.record.entry] last ∧
      (directory.TiledBy (Lone.bytes 47) [Lone.record.entry] ↔
        ∃ entries, entries.length = directory.count.toNat ∧
          directory.TiledBy (Lone.bytes 47) entries) ∧
      (directory.TiledBy (Lone.bytes 47) [Lone.record.entry] → ∀ entry ∈ [Lone.record.entry],
        ∃ (place : Nat) (record : Record), record.LiesAt (Lone.bytes 47) place ∧
          record.entry = entry ∧ directory.start ≤ place ∧
          place + record.length ≤ directory.stop) :=
  have opened : ofBytes {} (Lone.bytes 47) = _ := Lone.opens (by decide) (by decide)
  ⟨opened, ofBytes_spans opened⟩

/-- The name of an entry may be read from behind the directory. -/
theorem ofBytes_leaves_directory :
    ∃ (archive : Archive) (place : Nat) (directory : Directory) (record : Record),
      ofBytes {} (Lone.bytes 46) = .ok archive ∧ EndsAt (Lone.bytes 46) place ∧
      directory.LiesAt (Lone.bytes 46) place ∧ archive.entries = [record.entry] ∧
      record.LiesAt (Lone.bytes 46) directory.start ∧
      directory.stop < directory.start + record.length ∧
      ¬ directory.TiledBy (Lone.bytes 46) archive.entries := by
  refine ⟨_, 79, Lone.directory 46, Lone.record, Lone.opens (by decide) (by decide), Lone.ends,
    Lone.directory_lies, rfl, Lone.record_lies, by decide, ?_⟩
  intro tiled
  have ends : 79 = (Lone.directory 46).stop := ((Lone.spans (by decide)).unique tiled rfl).2
  exact absurd ends (by decide)

end Linkage.Archive
