import Linkage.Proofs.ArchiveReading

/-!
# The bytes of an archive

An `ArchiveForm` is an archive before it is written: the entries in a row, each behind a header, the
directory, and the end record. The entries come back with their data, whatever the headers and the
fields that nothing reads may hold. Of any archive that can be opened, written so or not, an entry
is read as what its directory record promises: `ofBytes_unpacks`.
-/

namespace Linkage

open LittleEndian

structure HeaderForm where
  version : UInt16
  flags : UInt16
  method : UInt16
  time : UInt32
  checksum : UInt32
  compressedSize : UInt32
  size : UInt32
  name : List UInt8
  extra : List UInt8

structure EntryForm where
  header : HeaderForm
  versions : UInt32
  flags : UInt16
  method : UInt16
  time : UInt32
  name : List UInt8
  extra : List UInt8
  comment : List UInt8
  disk : UInt32
  attributes : UInt32
  payload : ByteArray
  data : ByteArray

structure ArchiveForm where
  entries : List EntryForm
  disks : UInt32
  diskEntries : UInt16
  comment : List UInt8

def HeaderForm.pieces (form : HeaderForm) : List (List UInt8) :=
  [four Archive.headerSignature, two form.version, two form.flags, two form.method, four form.time,
    four form.checksum, four form.compressedSize, four form.size,
    two (UInt16.ofNat form.name.length), two (UInt16.ofNat form.extra.length), form.name,
    form.extra]

namespace EntryForm

def block (form : EntryForm) : List UInt8 := form.header.pieces.flatten ++ form.payload.data.toList

def pieces (form : EntryForm) (offset : Nat) : List (List UInt8) :=
  [four Archive.recordSignature, four form.versions, two form.flags, two form.method,
    four form.time, four (Crc32.ofBytes form.data), four (UInt32.ofNat form.payload.size),
    four (UInt32.ofNat form.data.size), two (UInt16.ofNat form.name.length),
    two (UInt16.ofNat form.extra.length), two (UInt16.ofNat form.comment.length), four form.disk,
    four form.attributes, four (UInt32.ofNat offset), form.name, form.extra, form.comment]

def directory : (offset : Nat) → List EntryForm → List UInt8
  | _, [] => []
  | offset, form :: forms =>
      (form.pieces offset).flatten ++ directory (offset + form.block.length) forms

def described (form : EntryForm) (offset : Nat) : Archive.Entry where
  name := Utf8.decodeLossy form.name
  method := form.method
  flags := form.flags
  checksum := Crc32.ofBytes form.data
  compressedSize := form.payload.size
  size := form.data.size
  headerOffset := offset

def describedAll : (offset : Nat) → List EntryForm → List Archive.Entry
  | _, [] => []
  | offset, form :: forms =>
      form.described offset :: describedAll (offset + form.block.length) forms

def Packs (form : EntryForm) : Prop :=
  form.method = 0 ∧ form.payload = form.data ∨
    form.method = 8 ∧ Deflate.inflate form.data.size form.payload = .ok form.data

structure Fits (limits : Limits) (form : EntryForm) : Prop where
  headerName : form.header.name.length < 2 ^ 16
  headerExtra : form.header.extra.length < 2 ^ 16
  name : form.name.length < 2 ^ 16
  extra : form.extra.length < 2 ^ 16
  comment : form.comment.length < 2 ^ 16
  payload : form.payload.size < 2 ^ 32 - 1
  data : form.data.size < 2 ^ 32 - 1
  permitted : form.data.size ≤ limits.entryBytes
  plain : form.flags &&& 1 = 0
  packs : form.Packs

end EntryForm

namespace ArchiveForm

def blocks (form : ArchiveForm) : List UInt8 := form.entries.flatMap EntryForm.block

def directory (form : ArchiveForm) : List UInt8 := EntryForm.directory 0 form.entries

def endPieces (form : ArchiveForm) : List (List UInt8) :=
  [four Archive.endSignature, four form.disks, two form.diskEntries,
    two (UInt16.ofNat form.entries.length), four (UInt32.ofNat form.directory.length),
    four (UInt32.ofNat form.blocks.length), two (UInt16.ofNat form.comment.length), form.comment]

def endOffset (form : ArchiveForm) : Nat := form.blocks.length + form.directory.length

def bytes (form : ArchiveForm) : ByteArray :=
  ⟨(form.blocks ++ (form.directory ++ form.endPieces.flatten)).toArray⟩

structure Fits (limits : Limits) (form : ArchiveForm) : Prop where
  entries : ∀ entry ∈ form.entries, entry.Fits limits
  count : form.entries.length < 2 ^ 16 - 1
  fewEntries : form.entries.length ≤ limits.archiveEntries
  comment : form.comment.length < 2 ^ 16
  offset : form.blocks.length < 2 ^ 32 - 1
  directory : form.directory.length < 2 ^ 32 - 1
  permitted : form.bytes.size ≤ limits.archiveBytes
  /-- Nothing behind the end record is taken for another one. -/
  last : ∀ offset, form.endOffset < offset → offset + Archive.endLength ≤ form.bytes.size →
    ¬ HoldsAt form.bytes offset (four Archive.endSignature)

end ArchiveForm

variable {limits : Limits} {data : ByteArray} {offset directoryEnd : Nat}

/-! ## The directory -/

theorem toNat_two {n : Nat} (small : n < 2 ^ 16) : (UInt16.ofNat n).toNat = n :=
  UInt16.toNat_ofNat_of_lt' small

theorem toNat_four {n : Nat} (small : n < 2 ^ 32 - 1) : (UInt32.ofNat n).toNat = n :=
  UInt32.toNat_ofNat_of_lt' (Nat.lt_of_lt_of_le small (by decide))

theorem ne_elsewhere {n : Nat} (small : n < 2 ^ 32 - 1) : UInt32.ofNat n ≠ Archive.elsewhere := by
  intro same
  have equal : n = 2 ^ 32 - 1 := (toNat_four small).symm.trans (congrArg UInt32.toNat same)
  omega

namespace EntryForm

variable {form : EntryForm} {header : Nat}

theorem length_pieces : (form.pieces header).flatten.length =
    Archive.recordLength + form.name.length + form.extra.length + form.comment.length := by
  simp [pieces, two, four, Archive.recordLength]
  omega

def record (form : EntryForm) (offset : Nat) : Archive.Record where
  flags := form.flags
  method := form.method
  checksum := Crc32.ofBytes form.data
  compressedSize := UInt32.ofNat form.payload.size
  size := UInt32.ofNat form.data.size
  extraLength := UInt16.ofNat form.extra.length
  commentLength := UInt16.ofNat form.comment.length
  headerOffset := UInt32.ofNat offset
  name := form.name

theorem entry_record (fits : form.Fits limits) (near : header < 2 ^ 32 - 1) :
    (form.record header).entry = form.described header := by
  simp only [Archive.Record.entry, record, described, toNat_four fits.payload, toNat_four fits.data,
    toNat_four near]

theorem length_record (fits : form.Fits limits) :
    (form.record header).length = (form.pieces header).flatten.length := by
  simp only [Archive.Record.length, record, length_pieces, toNat_two fits.extra,
    toNat_two fits.comment]

theorem record_lies (fits : form.Fits limits) (near : header < 2 ^ 32 - 1)
    (holds : HoldsAt data offset (form.pieces header).flatten) :
    (form.record header).LiesAt data offset where
  signature := holds.piece 0 0 rfl rfl
  flags := holds.piece 2 8 rfl rfl
  method := holds.piece 3 10 rfl rfl
  checksum := holds.piece 5 16 rfl rfl
  compressedSize := holds.piece 6 20 rfl rfl
  size := holds.piece 7 24 rfl rfl
  nameLength := holds.piece 8 28 rfl rfl
  extraLength := holds.piece 9 30 rfl rfl
  commentLength := holds.piece 10 32 rfl rfl
  headerOffset := holds.piece 13 42 rfl rfl
  name := holds.piece 14 Archive.recordLength rfl rfl
  short := fits.name
  given := by
    simp [record, ne_elsewhere fits.payload, ne_elsewhere fits.data, ne_elsewhere near]

theorem spans {forms : List EntryForm} (fits : ∀ form ∈ forms, form.Fits limits)
    (near : header + (forms.flatMap block).length < 2 ^ 32 - 1)
    (holds : HoldsAt data offset (directory header forms))
    (inside : offset + (directory header forms).length ≤ directoryEnd) :
    Archive.Spans data directoryEnd offset (describedAll header forms)
      (offset + (directory header forms).length) := by
  induction forms generalizing header offset with
  | nil => exact .nil
  | cons form forms ih =>
    rw [List.forall_mem_cons] at fits
    rw [List.flatMap_cons, List.length_append] at near
    rw [directory] at holds
    rw [directory, List.length_append] at inside
    have rest := ih fits.2 (by omega) holds.right (by omega)
    rw [← length_record fits.1] at inside rest
    rw [describedAll, ← entry_record fits.1 (by omega), directory, List.length_append,
      ← length_record fits.1, ← Nat.add_assoc]
    refine .cons (record_lies fits.1 (by omega) holds.left) ?_ rest
    rw [Archive.Record.length] at inside
    omega

end EntryForm

theorem length_describedAll {forms : List EntryForm} :
    (EntryForm.describedAll offset forms).length = forms.length := by
  induction forms generalizing offset with
  | nil => rfl
  | cons form forms ih => rw [EntryForm.describedAll, List.length_cons, ih, List.length_cons]

/-! ## The end record -/

namespace ArchiveForm

variable {form : ArchiveForm}

theorem toList_bytes : form.bytes.data.toList =
    form.blocks ++ (form.directory ++ form.endPieces.flatten) := by
  rw [bytes, List.toList_toArray]

theorem holds_blocks : HoldsAt form.bytes 0 form.blocks := by
  refine ⟨[], form.directory ++ form.endPieces.flatten, ?_, List.length_nil⟩
  rw [List.nil_append, toList_bytes]

theorem holds_directory : HoldsAt form.bytes form.blocks.length form.directory :=
  ⟨form.blocks, form.endPieces.flatten, toList_bytes, Eq.refl _⟩

theorem holds_end : HoldsAt form.bytes form.endOffset form.endPieces.flatten := by
  refine ⟨form.blocks ++ form.directory, [], ?_, List.length_append⟩
  rw [List.append_nil, List.append_assoc, toList_bytes]

theorem size_bytes :
    form.bytes.size = form.endOffset + (Archive.endLength + form.comment.length) := by
  simp [bytes, endPieces, endOffset, two, four, Archive.endLength, ByteArray.size]
  omega

theorem ends (fits : form.Fits limits) : Archive.EndsAt form.bytes form.endOffset where
  signature := form.holds_end.piece 0 0 rfl rfl
  room := by
    rw [size_bytes]
    omega
  near := by
    have comment := fits.comment
    rw [size_bytes, Archive.maxCommentLength]
    omega
  last := fits.last

def declared (form : ArchiveForm) : Archive.Directory where
  count := UInt16.ofNat form.entries.length
  size := UInt32.ofNat form.directory.length
  offset := UInt32.ofNat form.blocks.length

theorem declared_lies : form.declared.LiesAt form.bytes form.endOffset where
  count := form.holds_end.piece 3 10 rfl rfl
  size := form.holds_end.piece 4 12 rfl rfl
  offset := form.holds_end.piece 5 16 rfl rfl

theorem declared_count (fits : form.Fits limits) :
    form.declared.count.toNat = form.entries.length :=
  toNat_two (Nat.lt_of_lt_of_le fits.count (Nat.sub_le _ _))

theorem declared_start (fits : form.Fits limits) : form.declared.start = form.blocks.length :=
  toNat_four fits.offset

theorem declared_stop (fits : form.Fits limits) : form.declared.stop = form.endOffset := by
  simp only [Archive.Directory.stop, declared, toNat_four fits.offset, toNat_four fits.directory,
    endOffset]

theorem declared_fits (fits : form.Fits limits) : form.declared.Fits limits form.endOffset where
  given := by
    rintro (same | same | same)
    · have few := fits.count
      have equal : form.entries.length = 2 ^ 16 - 1 :=
        (declared_count fits).symm.trans (congrArg UInt16.toNat same)
      omega
    · exact ne_elsewhere fits.directory same
    · exact ne_elsewhere fits.offset same
  few := declared_count fits ▸ fits.fewEntries
  within := Nat.le_of_eq (declared_stop fits)

def archive (form : ArchiveForm) : Archive := ⟨form.bytes, EntryForm.describedAll 0 form.entries⟩

theorem ofBytes_bytes (fits : form.Fits limits) :
    Archive.ofBytes limits form.bytes = .ok form.archive := by
  have near : 0 + form.blocks.length < 2 ^ 32 - 1 := (Nat.zero_add _).symm ▸ fits.offset
  have spans := EntryForm.spans fits.entries near form.holds_directory (Nat.le_refl _)
  refine Archive.ofBytes_eq_ok.mpr ⟨rfl, fits.permitted, form.endOffset, form.declared,
    form.endOffset, ends fits, declared_lies, declared_fits fits, ?_, ?_⟩
  · rw [declared_count fits]
    exact length_describedAll
  · rw [declared_start fits, declared_stop fits]
    exact spans

end ArchiveForm

namespace EntryForm

theorem packs_of_inflated {form : EntryForm} (deflated : form.method = 8)
    (inflated : (Deflate.inflate form.data.size form.payload).toOption = some form.data) :
    form.Packs := by
  refine .inr ⟨deflated, ?_⟩
  cases result : Deflate.inflate form.data.size form.payload with
  | error stop => simp [result, Except.toOption] at inflated
  | ok bytes =>
    rw [result] at inflated
    exact congrArg Except.ok (Option.some.inj inflated)

/-- Whether an entry is listed under its name, with its size, and gives back its data. -/
structure ComesBack (limits : Limits) (archive : Archive) (form : EntryForm)
    (entry : Archive.Entry) : Prop where
  name : entry.name = Utf8.decodeLossy form.name
  size : entry.size = form.data.size
  read : archive.read limits entry = .ok form.data

variable {archive : Archive} {form : EntryForm}

theorem liesBehind (fits : form.Fits limits) (holds : HoldsAt data offset form.block) :
    (form.described offset).LiesBehind data
      ⟨UInt16.ofNat form.header.name.length, UInt16.ofNat form.header.extra.length⟩
      form.payload := by
  have length : form.header.pieces.flatten.length =
      Archive.headerLength + form.header.name.length + form.header.extra.length := by
    simp [HeaderForm.pieces, two, four, Archive.headerLength]
    omega
  have payload : sliceAt data (offset + form.header.pieces.flatten.length)
      form.payload.size = .ok form.payload := holds.right.slice rfl
  obtain ⟨inside, same⟩ := sliceAt_eq_ok.mp payload
  have placed : Archive.Header.LiesAt data offset
      ⟨UInt16.ofNat form.header.name.length, UInt16.ofNat form.header.extra.length⟩ :=
    ⟨holds.left.piece 0 0 rfl rfl, holds.left.piece 8 26 rfl rfl, holds.left.piece 9 28 rfl rfl⟩
  rw [length] at inside same
  refine ⟨placed, ?_, ?_⟩
  · rw [Archive.Header.length, toNat_two fits.headerName, toNat_two fits.headerExtra]
    exact inside
  · rw [Archive.Header.length, toNat_two fits.headerName, toNat_two fits.headerExtra]
    exact same

theorem standsFor (packs : form.Packs) :
    (form.described offset).StandsFor form.payload form.data :=
  packs.imp_right fun deflated => ⟨deflated.1, (Deflate.inflate_eq_ok.mp deflated.2).1⟩

theorem unpacks (fits : form.Fits limits) (holds : HoldsAt data offset form.block) :
    (form.described offset).Unpacks limits data form.data :=
  ⟨fits.plain, fits.permitted, rfl, rfl, _, _, liesBehind fits holds, standsFor fits.packs⟩

theorem comesBack_all {forms : List EntryForm} (fits : ∀ form ∈ forms, form.Fits limits)
    (holds : HoldsAt archive.data offset (forms.flatMap block)) :
    List.Forall₂ (ComesBack limits archive) forms (describedAll offset forms) := by
  induction forms generalizing offset with
  | nil => exact .nil
  | cons form forms ih =>
    rw [List.forall_mem_cons] at fits
    rw [List.flatMap_cons] at holds
    have read := Archive.read_eq_ok.mpr (unpacks fits.1 holds.left)
    exact .cons ⟨rfl, rfl, read⟩ (ih fits.2 holds.right)

end EntryForm

theorem ArchiveForm.archive_comesBack {form : ArchiveForm} (fits : form.Fits limits) :
    List.Forall₂ (EntryForm.ComesBack limits form.archive) form.entries form.archive.entries :=
  EntryForm.comesBack_all fits.entries form.holds_blocks

/-! ## A sample -/

namespace EntryForm

def storedSample : EntryForm where
  header := ⟨20, 1, 8, 0, 0, 0, 7, [], [1, 2, 3]⟩
  versions := 20
  flags := 0
  method := 0
  time := 0
  name := [0x41]
  extra := []
  comment := [7, 7]
  disk := 0
  attributes := 0
  payload := ⟨#[0x68, 0x69]⟩
  data := ⟨#[0x68, 0x69]⟩

def deflatedSample : EntryForm where
  header := ⟨20, 0, 0, 0, 0, 0, 0, [0x42], []⟩
  versions := 20
  flags := 0
  method := 8
  time := 0
  name := [0x42, 0x2F, 0xFF]
  extra := [5]
  comment := []
  disk := 0
  attributes := 0
  payload := ⟨#[0x4B, 0x4C, 0x84, 0, 0]⟩
  data := ⟨#[0x61, 0x61, 0x61, 0x61, 0x61, 0x61, 0x61, 0x61]⟩

theorem storedSample_fits : storedSample.Fits {} := by
  constructor
  case packs => exact .inl ⟨rfl, rfl⟩
  all_goals decide

theorem deflatedSample_fits : deflatedSample.Fits {} := by
  constructor
  case packs => exact packs_of_inflated rfl (by decide +kernel)
  all_goals decide

end EntryForm

namespace ArchiveForm

/-- Two entries. The comment opens like an end record, but too near the end to be one. -/
def sample : ArchiveForm := ⟨[.storedSample, .deflatedSample], 0, 2, [0x50, 0x4B, 5, 6]⟩

theorem sample_fits : sample.Fits {} where
  entries := by
    intro entry listed
    rcases List.mem_pair.mp listed with rfl | rfl
    · exact EntryForm.storedSample_fits
    · exact EntryForm.deflatedSample_fits
  count := by decide
  fewEntries := by decide
  comment := by decide
  offset := by decide
  directory := by decide
  permitted := by
    rw [size_bytes]
    decide
  last := by
    intro offset later within holds
    obtain ⟨index, rfl⟩ := Nat.exists_eq_add_of_lt later
    have commentLength : sample.comment.length = 4 := rfl
    have length : sample.endPieces.flatten.length = 26 := rfl
    rw [size_bytes, commentLength] at within
    have bound : sample.endOffset + index + 1 < sample.bytes.size := by
      rw [size_bytes, commentLength, Archive.endLength]
      omega
    have begun : sample.bytes[sample.endOffset + index + 1] = 0x50 :=
      holds.getElem 0 (Nat.zero_lt_succ 3) (Nat.add_zero _) bound
    have inside : index + 1 < sample.endPieces.flatten.length := by omega
    rw [sample.holds_end.getElem (index + 1) inside (Nat.add_assoc _ _ _).symm bound] at begun
    have short : index = 0 ∨ index = 1 ∨ index = 2 ∨ index = 3 := by omega
    have listed : sample.endPieces.flatten[index + 1]? = some 0x50 := by
      rw [List.getElem?_eq_getElem inside, begun]
    rcases short with rfl | rfl | rfl | rfl <;> exact absurd listed (by decide)

end ArchiveForm

/-- The bytes of an archive are read back as its entries, in the order of its directory. -/
theorem ArchiveForm.ofBytes_comesBack (form : ArchiveForm) (fits : form.Fits limits) :
    ∃ archive, Archive.ofBytes limits form.bytes = .ok archive ∧
      List.Forall₂ (EntryForm.ComesBack limits archive) form.entries archive.entries :=
  ⟨form.archive, ofBytes_bytes fits, archive_comesBack fits⟩

theorem ArchiveForm.ofBytes_comesBack_sample : sample.Fits {} ∧
    ∃ archive, Archive.ofBytes {} sample.bytes = .ok archive ∧
      List.Forall₂ (EntryForm.ComesBack {} archive) sample.entries archive.entries :=
  ⟨sample_fits, sample.ofBytes_comesBack sample_fits⟩

/-! ## Entries of any archive -/

namespace Archive

/-- What is read of an entry is what its directory record promises. It cannot be read if nothing
keeps the promise. -/
theorem ofBytes_unpacks {archive : Archive} {limits : Limits} {entry : Entry} {opening : Limits}
    {data : ByteArray} (opened : ofBytes opening data = .ok archive)
    (listed : entry ∈ archive.entries) :
    (∃ (place : Nat) (record : Record), record.LiesAt data place ∧ record.entry = entry) ∧
      (∀ bytes, archive.read limits entry = .ok bytes ↔ entry.Unpacks limits data bytes) ∧
      ((∃ fault, archive.read limits entry = .error fault) ↔
        ¬ ∃ bytes, entry.Unpacks limits data bytes) := by
  obtain ⟨rfl, -, _, _, _, -, -, -, -, spans⟩ := ofBytes_eq_ok.mp opened
  obtain ⟨place, record, lies, described, -⟩ := spans.mem_entry listed
  refine ⟨⟨place, record, lies, described⟩, fun bytes => read_eq_ok, ?_⟩
  simp only [← read_eq_ok]
  cases archive.read limits entry with
  | ok bytes => exact ⟨nofun, fun none => absurd ⟨bytes, rfl⟩ none⟩
  | error fault => exact ⟨fun _ => nofun, fun _ => ⟨fault, rfl⟩⟩

/-- Of two entries, one is stored and one is deflated. -/
theorem ofBytes_unpacks_sample :
    ofBytes {} ArchiveForm.sample.bytes = .ok ArchiveForm.sample.archive ∧
      ArchiveForm.sample.archive.entries =
        [EntryForm.storedSample.described 0, EntryForm.deflatedSample.described 35] ∧
      read {} ArchiveForm.sample.archive (EntryForm.storedSample.described 0) =
        .ok EntryForm.storedSample.data ∧
      read {} ArchiveForm.sample.archive (EntryForm.deflatedSample.described 35) =
        .ok EntryForm.deflatedSample.data := by
  have opened : ofBytes {} ArchiveForm.sample.bytes = .ok ArchiveForm.sample.archive :=
    ArchiveForm.ofBytes_bytes ArchiveForm.sample_fits
  have holds := ArchiveForm.sample.holds_blocks
  have stored := EntryForm.unpacks EntryForm.storedSample_fits holds.left
  have deflated := EntryForm.unpacks EntryForm.deflatedSample_fits holds.right.left
  refine ⟨opened, rfl, ?_, ?_⟩
  · exact ((ofBytes_unpacks opened (List.mem_cons_self ..)).2.1 _).mpr stored
  · exact ((ofBytes_unpacks opened (.tail _ (.head _))).2.1 _).mpr deflated

end Archive

end Linkage
