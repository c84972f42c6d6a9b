import Linkage.Proofs.ArchiveDirectory
import Mathlib.Order.Bounds.Basic

/-!
# The end record of an archive

An archive is opened at the last of the places where an end record can be and its signature is:
`endRecord_greatest`. All of the record is in the data, and whatever else is found missing begins no
later than the record.
-/

namespace Linkage.Archive

open LittleEndian

variable {α β : Type} {data : ByteArray} {place first count offset : Nat} {fault : Fault}

/-! ## The last place -/

/-- The places where an end record can be: its 22 bytes are in the data, and those behind it are no
more than a comment can have. There are at most 65536 of them. -/
def endPlaces (data : ByteArray) : Set Nat :=
  {place | place + 22 ≤ data.size ∧ data.size ≤ place + 22 + 65535}

def signedPlaces (data : ByteArray) : Set Nat :=
  {place | place ∈ endPlaces data ∧ HoldsAt data place [0x50, 0x4b, 0x05, 0x06]}

theorem endsAt_iff : EndsAt data place ↔ IsGreatest (signedPlaces data) place := by
  constructor
  · rintro ⟨signature, room, near, last⟩
    refine ⟨⟨⟨room, near⟩, signature⟩, fun other signed => ?_⟩
    exact Nat.not_lt.mp fun later => last other later signed.1.1 signed.2
  · rintro ⟨⟨⟨room, near⟩, signature⟩, greatest⟩
    refine ⟨signature, room, near, fun other later inside signed => ?_⟩
    have near' : data.size ≤ other + 22 + 65535 := by omega
    exact absurd (greatest ⟨⟨inside, near'⟩, signed⟩) (Nat.not_le.mpr later)

theorem lastEndRecord?_eq_none : lastEndRecord? data first count = none ↔
    ∀ offset, first ≤ offset → offset < first + count →
      ¬ HoldsAt data offset (four endSignature) := by
  induction count with
  | zero => exact ⟨fun _ _ after before => absurd before (Nat.not_lt.mpr after), fun _ => rfl⟩
  | succ count ih =>
    by_cases here : HoldsAt data (first + count) (four endSignature)
    · rw [lastEndRecord?_here here]
      constructor
      · rintro ⟨⟩
      · exact fun absent => absurd here (absent _ (Nat.le_add_right _ _) (Nat.lt_succ_self _))
    · rw [lastEndRecord?_succ here, ih]
      constructor
      · intro absent offset after before
        rcases Nat.lt_succ_iff_lt_or_eq.mp before with earlier | rfl
        · exact absent offset after earlier
        · exact here
      · exact fun absent offset after before => absent offset after (Nat.lt_succ_of_lt before)

theorem endRecord_eq_error : endRecord data = .error fault ↔
    data.size < 22 ∧ fault = .notAnArchive "too short" ∨
    ¬ data.size < 22 ∧ signedPlaces data = ∅ ∧
      fault = .notAnArchive "no end of central directory record" := by
  unfold endRecord
  rw [check_eq_error]
  refine or_congr Iff.rfl (and_congr_right fun long => ?_)
  dsimp only
  split
  case h_1 offset found =>
    obtain ⟨signature, after, before, -⟩ := lastEndRecord?_eq_some.mp found
    have signed : offset ∈ signedPlaces data := by
      simp only [endLength, maxCommentLength] at long after before
      exact ⟨⟨by omega, by omega⟩, signature⟩
    refine ⟨nofun, fun otherwise => ?_⟩
    rw [otherwise.1] at signed
    exact signed.elim
  case h_2 absent =>
    have unsigned : signedPlaces data = ∅ := by
      refine Set.eq_empty_iff_forall_notMem.mpr fun offset signed => ?_
      obtain ⟨⟨room, near⟩, signature⟩ := signed
      refine lastEndRecord?_eq_none.mp absent offset ?_ ?_ signature
      · simp only [endLength, maxCommentLength]
        omega
      · simp only [endLength, maxCommentLength] at long ⊢
        omega
    rw [unsigned, eq_self, true_and]
    constructor
    · rintro ⟨⟩
      rfl
    · rintro rfl
      rfl

/-! ## What is missing -/

/-- Whether what is found missing begins no later than at a place. -/
def MissesBefore (place : Nat) (result : Except Fault α) : Prop :=
  ∀ offset wanted, result = .error (.truncated offset wanted) → offset ≤ place

section Missing

variable {result : Except Fault α} {value : α}

theorem missesBefore_ok : MissesBefore place (.ok value : Except Fault α) := nofun

theorem MissesBefore.bind {next : α → Except Fault β} (start : MissesBefore place result)
    (rest : ∀ value, result = .ok value → MissesBefore place (next value)) :
    MissesBefore place (result >>= next) := by
  intro offset wanted failed
  rcases bind_eq_error.mp failed with failed | ⟨value, read, failed⟩
  · exact start offset wanted failed
  · exact rest value read offset wanted failed

theorem MissesBefore.check {condition : Prop} [Decidable condition] {fault : Fault}
    {next : Unit → Except Fault α} (other : ∀ offset wanted, fault ≠ .truncated offset wanted)
    (rest : ¬ condition → MissesBefore place (next ())) :
    MissesBefore place (if condition then throw fault >>= next else next ()) := by
  intro offset wanted failed
  rcases check_eq_error.mp failed with ⟨-, same⟩ | ⟨unmet, failed⟩
  · exact absurd same.symm (other offset wanted)
  · exact rest unmet offset wanted failed

theorem missesBefore_u16 (before : offset ≤ place) : MissesBefore place (u16At data offset) := by
  intro offset' wanted failed
  unfold u16At at failed
  split at failed <;> cases failed
  exact before

theorem missesBefore_u32 (before : offset ≤ place) : MissesBefore place (u32At data offset) := by
  intro offset' wanted failed
  unfold u32At at failed
  split at failed <;> cases failed
  exact before

theorem missesBefore_slice (before : offset ≤ place) :
    MissesBefore place (sliceAt data offset count) := by
  intro offset' wanted failed
  unfold sliceAt at failed
  split at failed <;> cases failed
  exact before

end Missing

theorem missesBefore_recordAt {directoryEnd : Nat} (before : directoryEnd ≤ place) :
    MissesBefore place (recordAt data directoryEnd offset) := by
  unfold recordAt
  refine .check nofun fun room => ?_
  have inside : offset + 46 ≤ place := Nat.le_trans (Nat.not_lt.mp room) before
  have u16 (skipped : Nat) (short : skipped ≤ 46) :
      MissesBefore place (u16At data (offset + skipped)) := missesBefore_u16 (by omega)
  have u32 (skipped : Nat) (short : skipped ≤ 46) :
      MissesBefore place (u32At data (offset + skipped)) := missesBefore_u32 (by omega)
  refine .bind (u32 0 (by omega)) fun _ _ => .check nofun fun _ => ?_
  refine .bind (u16 8 (by omega)) fun _ _ => .bind (u16 10 (by omega)) fun _ _ => ?_
  refine .bind (u32 16 (by omega)) fun _ _ => .bind (u32 20 (by omega)) fun _ _ => ?_
  refine .bind (u32 24 (by omega)) fun _ _ => .bind (u16 28 (by omega)) fun _ _ => ?_
  refine .bind (u16 30 (by omega)) fun _ _ => .bind (u16 32 (by omega)) fun _ _ => ?_
  refine .bind (u32 42 (by omega)) fun _ _ => .check nofun fun _ => ?_
  exact .bind (missesBefore_slice inside) fun _ _ => missesBefore_ok

theorem missesBefore_records {directoryEnd : Nat} {before : List Entry}
    (inside : directoryEnd ≤ place) :
    MissesBefore place (records data directoryEnd before count offset) := by
  induction count generalizing before offset with
  | zero => exact missesBefore_ok
  | succ count ih => exact .bind (missesBefore_recordAt inside) fun _ _ => ih

theorem exists_u16At (inside : offset + 2 ≤ data.size) : ∃ n, u16At data offset = .ok n :=
  ⟨_, dif_pos inside⟩

theorem exists_u32At (inside : offset + 4 ≤ data.size) : ∃ n, u32At data offset = .ok n :=
  ⟨_, dif_pos inside⟩

theorem Directory.exists_liesAt (room : place + 22 ≤ data.size) :
    ∃ directory : Directory, directory.LiesAt data place := by
  obtain ⟨count, countRead⟩ := exists_u16At (show place + 10 + 2 ≤ data.size by omega)
  obtain ⟨size, sizeRead⟩ := exists_u32At (show place + 12 + 4 ≤ data.size by omega)
  obtain ⟨offset, offsetRead⟩ := exists_u32At (show place + 16 + 4 ≤ data.size by omega)
  exact ⟨⟨count, size, offset⟩, u16At_eq_ok.mp countRead, u32At_eq_ok.mp sizeRead,
    u32At_eq_ok.mp offsetRead⟩

theorem missesBefore_ofBytes {limits : Limits} (ended : endRecord data = .ok place) :
    MissesBefore place (ofBytes limits data) := by
  obtain ⟨directory, lies⟩ := Directory.exists_liesAt (endRecord_eq_ok.mp ended).room
  unfold ofBytes
  refine .check nofun fun _ => .bind (ended ▸ missesBefore_ok) fun found same => ?_
  obtain rfl : place = found := Except.ok.inj (ended.symm.trans same)
  refine .bind (lies.count.u16 ▸ missesBefore_ok) fun _ _ => ?_
  refine .bind (lies.size.u32 ▸ missesBefore_ok) fun _ _ => ?_
  refine .bind (lies.offset.u32 ▸ missesBefore_ok) fun _ _ => ?_
  refine .check nofun fun _ => .check nofun fun _ => .check nofun fun within => ?_
  exact .bind (missesBefore_records (Nat.not_lt.mp within)) fun _ _ => missesBefore_ok

/-- The end record is at the greatest of the signed places. There is none in data that is too short
for one or has no such place. All of its 22 bytes are in the data, so that whatever is found missing
when the archive is opened begins no later. -/
theorem endRecord_greatest (data : ByteArray) :
    (∀ place, endRecord data = .ok place ↔ IsGreatest (signedPlaces data) place) ∧
    (∀ fault, endRecord data = .error fault ↔
      data.size < 22 ∧ fault = .notAnArchive "too short" ∨
      ¬ data.size < 22 ∧ signedPlaces data = ∅ ∧
        fault = .notAnArchive "no end of central directory record") ∧
    ∀ place, endRecord data = .ok place →
      (∃ record, sliceAt data place 22 = .ok record ∧ record.size = 22) ∧
      (∃ directory : Directory, directory.LiesAt data place) ∧
      ∀ limits, MissesBefore place (ofBytes limits data) := by
  refine ⟨fun _ => endRecord_eq_ok.trans endsAt_iff, fun _ => endRecord_eq_error, ?_⟩
  intro place ended
  have room : place + 22 ≤ data.size := (endRecord_eq_ok.mp ended).room
  refine ⟨⟨_, sliceAt_eq_ok.mpr ⟨room, rfl⟩, ?_⟩, Directory.exists_liesAt room,
    fun _ => missesBefore_ofBytes ended⟩
  rw [ByteArray.size_extract]
  omega

end Linkage.Archive
