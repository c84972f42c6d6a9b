import Linkage.Proofs.Decoding
import Mathlib.Data.Nat.Digits.Defs

/-!
# Requests to a cursor

A `Request` is one of the readings that decoders are made of, and `Comes` says what comes of it, in
terms of a position and the bytes ahead. However many requests are made of some data, and whichever
of them fail, the cursor stays inside and what is read in a row is the data up to it:
`run_follows_data`.
-/

namespace Linkage

def bigEndian (bytes : List UInt8) : Nat := Nat.ofDigits 256 (bytes.reverse.map UInt8.toNat)

def IsNumber {α : Type} (count : Nat) (toNat : α → Nat) (taken : List UInt8) (value : α) : Prop :=
  taken.length = count ∧ toNat value = bigEndian taken

variable {α : Type} {data ahead taken : List UInt8} {pos : Nat}

/-! ## Readings of a fixed length -/

namespace Decoder

variable {decoder : Decoder α} {count : Nat} {holds : List UInt8 → α → Prop}

/-- Whether a decoder takes a number of bytes and gives what they hold. Where fewer are left it
stays where it is and tells how many it wants. -/
structure Wants (decoder : Decoder α) (count : Nat) (holds : List UInt8 → α → Prop) : Prop where
  answers : ∀ pos ahead, count ≤ ahead.length → ∃ value, holds (ahead.take count) value ∧
    decoder ⟨pos, ahead⟩ = .ok value ⟨pos + count, ahead.drop count⟩
  misses : ∀ pos ahead, ahead.length < count →
    decoder ⟨pos, ahead⟩ = .error (.truncated pos count) ⟨pos, ahead⟩

theorem u1_wants : u1.Wants 1 (IsNumber 1 UInt8.toNat) where
  answers pos ahead enough := by
    match ahead, enough with
    | b :: rest, _ => exact ⟨b, ⟨rfl, Nat.ofDigits_singleton.symm⟩, rfl⟩
  misses pos ahead short := by
    match ahead, short with
    | [], _ => rfl

theorem u2_wants : u2.Wants 2 (IsNumber 2 UInt16.toNat) where
  answers pos ahead enough := by
    match ahead, enough with
    | b₁ :: b₀ :: rest, _ =>
      refine ⟨_, ⟨rfl, ?_⟩, rfl⟩
      rw [join_two_toNat]
      change _ = Nat.ofDigits 256 [b₀.toNat, b₁.toNat]
      simp only [Nat.ofDigits_cons, Nat.ofDigits_nil]
      omega
  misses pos ahead short := by
    match ahead, short with
    | [], _ | [_], _ => rfl

theorem u4_wants : u4.Wants 4 (IsNumber 4 UInt32.toNat) where
  answers pos ahead enough := by
    match ahead, enough with
    | b₃ :: b₂ :: b₁ :: b₀ :: rest, _ =>
      refine ⟨_, ⟨rfl, ?_⟩, rfl⟩
      rw [join_toNat]
      change _ = Nat.ofDigits 256 [b₀.toNat, b₁.toNat, b₂.toNat, b₃.toNat]
      simp only [Nat.ofDigits_cons, Nat.ofDigits_nil]
      omega
  misses pos ahead short := by
    match ahead, short with
    | [], _ | [_], _ | [_, _], _ | [_, _, _], _ => rfl

theorem bytes_wants (count : Nat) :
    (Decoder.bytes count).Wants count fun taken part => taken.length = count ∧ part = taken where
  answers pos ahead enough := by
    refine ⟨ahead.take count, ⟨List.length_take_of_le enough, rfl⟩, ?_⟩
    rw [Decoder.bytes, if_pos ((reaches_eq_true_iff _ _).mpr enough)]
  misses pos ahead short := by
    rw [Decoder.bytes, if_neg fun enough => ?_]
    exact absurd ((reaches_eq_true_iff _ _).mp enough) (Nat.not_le.mpr short)

theorem skip_wants (count : Nat) :
    (skip count).Wants count fun taken _ => taken.length = count where
  answers pos ahead enough := by
    obtain ⟨part, ⟨exact, -⟩, read⟩ := (bytes_wants count).answers pos ahead enough
    exact ⟨(), exact, bind_of_ok read⟩
  misses pos ahead short := bind_of_error ((bytes_wants count).misses pos ahead short)

end Decoder

inductive Request
  | u1
  | u2
  | u4
  | bytes (count : Nat)
  | skip (count : Nat)
  | u4Prefixed
  deriving DecidableEq, Repr

namespace Request

abbrev Answer : Request → Type
  | u1 => UInt8
  | u2 => UInt16
  | u4 => UInt32
  | bytes _ => List UInt8
  | skip _ => Unit
  | u4Prefixed => List UInt8

def decoder : (request : Request) → Decoder request.Answer
  | u1 => Decoder.u1
  | u2 => Decoder.u2
  | u4 => Decoder.u4
  | bytes count => Decoder.bytes count
  | skip count => Decoder.skip count
  | u4Prefixed => Decoder.u4Prefixed

def count : Request → Nat
  | u1 => 1
  | u2 => 2
  | u4 => 4
  | bytes count => count
  | skip count => count
  | u4Prefixed => 4

def Holds : (request : Request) → List UInt8 → request.Answer → Prop
  | u1, taken, value => IsNumber 1 UInt8.toNat taken value
  | u2, taken, value => IsNumber 2 UInt16.toNat taken value
  | u4, taken, value => IsNumber 4 UInt32.toNat taken value
  | bytes count, taken, part => taken.length = count ∧ part = taken
  | skip count, taken, _ => taken.length = count
  | u4Prefixed, taken, part =>
      ∃ size, size.length = 4 ∧ List.length part = bigEndian size ∧ taken = size ++ part

def perform (request : Request) (cursor : Cursor) : Except Fault request.Answer × Cursor :=
  match request.decoder cursor with
  | .ok value next => (.ok value, next)
  | .error fault next => (.error fault, next)

end Request

/-- What comes of a request at a position, with some bytes ahead, and which of them it takes. Only a
length whose bytes are missing is taken by a request that fails. -/
inductive Comes (pos : Nat) (ahead : List UInt8) :
    (request : Request) → Except Fault request.Answer → (taken : List UInt8) → Prop
  | answered {request : Request} {value : request.Answer} {taken : List UInt8}
      (lies : taken <+: ahead) (holds : request.Holds taken value) :
      Comes pos ahead request (.ok value) taken
  | missing {request : Request} (short : ahead.length < request.count) :
      Comes pos ahead request (.error (.truncated pos request.count)) []
  | cut {size : List UInt8} (lies : size <+: ahead) (exact : size.length = 4)
      (short : ahead.length < 4 + bigEndian size) :
      Comes pos ahead .u4Prefixed (.error (.truncated (pos + 4) (bigEndian size))) size

variable {request : Request} {result : Except Fault request.Answer}

theorem Comes.lies (comes : Comes pos ahead request result taken) : taken <+: ahead := by
  cases comes with
  | answered lies => exact lies
  | missing => exact List.nil_prefix
  | cut lies => exact lies

def Request.Complies (request : Request) (pos : Nat) (ahead : List UInt8) : Prop :=
  ∃ result taken, Comes pos ahead request result taken ∧
    request.perform ⟨pos, ahead⟩ = (result, ⟨pos + taken.length, ahead.drop taken.length⟩)

theorem Request.perform_of_ok {value : request.Answer} {cursor next : Cursor}
    (read : request.decoder cursor = .ok value next) :
    request.perform cursor = (.ok value, next) := by
  rw [perform, read]

theorem Request.perform_of_error {fault : Fault} {cursor next : Cursor}
    (failed : request.decoder cursor = .error fault next) :
    request.perform cursor = (.error fault, next) := by
  rw [perform, failed]

theorem complies_of_missing (short : ahead.length < request.count)
    (failed : request.decoder ⟨pos, ahead⟩ = .error (.truncated pos request.count) ⟨pos, ahead⟩) :
    request.Complies pos ahead :=
  ⟨_, _, .missing short, Request.perform_of_error failed⟩

theorem complies_of_wants (wants : request.decoder.Wants request.count request.Holds) :
    request.Complies pos ahead := by
  by_cases enough : request.count ≤ ahead.length
  · obtain ⟨value, holds, read⟩ := wants.answers pos ahead enough
    refine ⟨_, _, .answered (List.take_prefix _ _) holds, ?_⟩
    rw [List.length_take_of_le enough]
    exact Request.perform_of_ok read
  · have short := Nat.not_le.mp enough
    exact complies_of_missing short (wants.misses pos ahead short)

theorem u4Prefixed_complies : Request.u4Prefixed.Complies pos ahead := by
  by_cases enough : 4 ≤ ahead.length
  case neg =>
    have short := Nat.not_le.mp enough
    have failed := Decoder.u4_wants.misses pos ahead short
    exact complies_of_missing short (Decoder.bind_of_error failed)
  obtain ⟨size, ⟨exact, isSize⟩, sized⟩ := Decoder.u4_wants.answers pos ahead enough
  -- The length is read: if its bytes are missing, they are missing four bytes further on.
  by_cases whole : size.toNat ≤ (ahead.drop 4).length
  · obtain ⟨part, ⟨length, rfl⟩, read⟩ :=
      (Decoder.bytes_wants size.toNat).answers (pos + 4) _ whole
    have taken : ahead.take (4 + size.toNat) = ahead.take 4 ++ (ahead.drop 4).take size.toNat :=
      List.take_add
    refine ⟨_, _, .answered (List.take_prefix (4 + size.toNat) ahead)
      ⟨_, exact, length.trans isSize, taken⟩, ?_⟩
    rw [taken, List.length_append, exact, length, ← List.drop_drop, ← Nat.add_assoc]
    exact Request.perform_of_ok ((Decoder.bind_of_ok sized).trans read)
  · have short := Nat.not_le.mp whole
    have failed := (Decoder.bytes_wants size.toNat).misses (pos + 4) _ short
    have beyond : ahead.length < 4 + bigEndian (ahead.take 4) := by
      rw [List.length_drop] at short
      omega
    refine ⟨_, _, .cut (List.take_prefix _ _) exact beyond, ?_⟩
    rw [← isSize, exact]
    exact Request.perform_of_error ((Decoder.bind_of_ok sized).trans failed)

theorem Request.complies (request : Request) (pos : Nat) (ahead : List UInt8) :
    request.Complies pos ahead := by
  cases request with
  | u1 => exact complies_of_wants Decoder.u1_wants
  | u2 => exact complies_of_wants Decoder.u2_wants
  | u4 => exact complies_of_wants Decoder.u4_wants
  | bytes count => exact complies_of_wants (Decoder.bytes_wants count)
  | skip count => exact complies_of_wants (Decoder.skip_wants count)
  | u4Prefixed => exact u4Prefixed_complies

/-! ## Requests in a row -/

structure Outcome where
  request : Request
  result : Except Fault request.Answer
  next : Cursor

def Request.run (cursor : Cursor) : List Request → List Outcome
  | [] => []
  | request :: more =>
    let (result, next) := request.perform cursor
    ⟨request, result, next⟩ :: run next more

def Cursor.within (data : List UInt8) (pos : Nat) : Cursor := ⟨pos, data.drop pos⟩

/-- Whether outcomes are those of requests made in a row from a position of some data on, each of
which takes one of some parts of the data. -/
inductive History (data : List UInt8) : (pos : Nat) → List Outcome → List (List UInt8) → Prop
  | nil {pos : Nat} : History data pos [] []
  | cons {pos : Nat} {request : Request} {result : Except Fault request.Answer}
      {taken : List UInt8} {outcomes : List Outcome} {parts : List (List UInt8)}
      (comes : Comes pos (data.drop pos) request result taken)
      (rest : History data (pos + taken.length) outcomes parts) :
      History data pos (⟨request, result, .within data (pos + taken.length)⟩ :: outcomes)
        (taken :: parts)

variable {outcomes : List Outcome} {parts : List (List UInt8)}

theorem run_history (data : List UInt8) (pos : Nat) (requests : List Request) :
    ∃ parts, History data pos (Request.run (.within data pos) requests) parts := by
  induction requests generalizing pos with
  | nil => exact ⟨[], .nil⟩
  | cons request requests ih =>
    obtain ⟨result, taken, comes, performed⟩ := request.complies pos (data.drop pos)
    obtain ⟨parts, rest⟩ := ih (pos + taken.length)
    refine ⟨taken :: parts, ?_⟩
    rw [Request.run, Cursor.within, performed, List.drop_drop]
    exact .cons comes rest

theorem map_request_run (cursor : Cursor) (requests : List Request) :
    (Request.run cursor requests).map Outcome.request = requests := by
  induction requests generalizing cursor with
  | nil => rfl
  | cons request requests ih => exact congrArg (request :: ·) (ih _)

theorem Comes.place (comes : Comes pos (data.drop pos) request result taken)
    (inside : pos ≤ data.length) :
    pos + taken.length ≤ data.length ∧ data.take pos ++ taken = data.take (pos + taken.length) := by
  have length := comes.lies.length_le
  have part := List.prefix_iff_eq_take.mp comes.lies
  rw [List.length_drop] at length
  refine ⟨by omega, ?_⟩
  rw [List.take_add, ← part]

def cursors (first : Cursor) (outcomes : List Outcome) : List Cursor :=
  first :: outcomes.map Outcome.next

theorem History.ascends (history : History data pos outcomes parts) :
    ((cursors (.within data pos) outcomes).map Cursor.pos).IsChain (· ≤ ·) := by
  induction history with
  | nil => exact .singleton _
  | cons _ _ ih => exact .cons_cons (Nat.le_add_right _ _) ih

theorem History.reads {count : Nat} {cursor : Cursor} (history : History data pos outcomes parts)
    (inside : pos ≤ data.length)
    (met : (cursors (.within data pos) outcomes)[count]? = some cursor) :
    cursor.pos ≤ data.length ∧ cursor = .within data cursor.pos ∧
      data.take pos ++ (parts.take count).flatten = data.take cursor.pos := by
  induction history generalizing count with
  | nil =>
    cases count with
    | zero =>
      cases met
      exact ⟨inside, rfl, List.append_nil _⟩
    | succ => cases met
  | cons comes _ ih =>
    cases count with
    | zero =>
      cases met
      exact ⟨inside, rfl, List.append_nil _⟩
    | succ count =>
      obtain ⟨inside', part⟩ := comes.place inside
      obtain ⟨within, placed, read⟩ := ih inside' met
      refine ⟨within, placed, ?_⟩
      rw [List.take_succ_cons, List.flatten_cons, ← List.append_assoc, part, read]

/-- Whatever is asked for in a row, the cursor is inside the data, it never goes back, and the bytes
taken so far are the data before it. Each request gives what the bytes at its position hold and
takes just these, or tells where how many bytes are missing and, but for a length, takes none. -/
theorem run_follows_data (data : List UInt8) (requests : List Request) :
    ∃ (outcomes : List Outcome) (parts : List (List UInt8)),
      Request.run (Cursor.start data) requests = outcomes ∧
      outcomes.map Outcome.request = requests ∧ History data 0 outcomes parts ∧
      ((cursors (Cursor.start data) outcomes).map Cursor.pos).Pairwise (· ≤ ·) ∧
      ∀ (count : Nat) (cursor : Cursor),
        (cursors (Cursor.start data) outcomes)[count]? = some cursor →
          cursor.pos ≤ data.length ∧ cursor.remaining = data.length - cursor.pos ∧
          (parts.take count).flatten = data.take cursor.pos := by
  obtain ⟨parts, history⟩ := run_history data 0 requests
  refine ⟨_, parts, rfl, map_request_run _ requests, history, history.ascends.pairwise, ?_⟩
  intro count cursor met
  obtain ⟨inside, placed, read⟩ := history.reads (Nat.zero_le _) met
  refine ⟨inside, ?_, read⟩
  rw [placed, Cursor.remaining, Cursor.within, List.length_drop]

example : (Request.run (Cursor.start [0, 0, 0, 9, 7]) [.u4Prefixed, .u1, .bytes (2 ^ 64 - 1)]).map
    (fun outcome => outcome.next) = [⟨4, [7]⟩, ⟨5, []⟩, ⟨5, []⟩] := by decide

/-- With positions and lengths in words of 64 bits, the same bytes are there: their end is found
without an overflow, and in the data. -/
theorem bytes_in_words {start count : UInt64} (inside : start.toNat ≤ data.length)
    (small : data.length < 2 ^ 64) :
    (∃ part, Decoder.bytes count.toNat (.within data start.toNat) =
        .ok part (.within data (start + count).toNat)) ↔
      start ≤ start + count ∧ (start + count).toNat ≤ data.length := by
  have total : (start + count).toNat = (start.toNat + count.toNat) % 2 ^ 64 := UInt64.toNat_add ..
  have room : start ≤ start + count ∧ (start + count).toNat ≤ data.length ↔
      start.toNat + count.toNat ≤ data.length := by
    have word := count.toNat_lt
    rw [UInt64.le_iff_toNat_le, total]
    omega
  rw [room]
  constructor
  · rintro ⟨part, read⟩
    have length := (Decoder.bytes_length read).2
    simp only [Cursor.within, List.length_drop] at length
    omega
  · intro enough
    have there : count.toNat ≤ (data.drop start.toNat).length := by
      rw [List.length_drop]
      omega
    obtain ⟨part, -, read⟩ := (Decoder.bytes_wants count.toNat).answers start.toNat _ there
    refine ⟨part, ?_⟩
    rw [total, Nat.mod_eq_of_lt (by omega), Cursor.within, read, List.drop_drop]
    rfl

end Linkage
