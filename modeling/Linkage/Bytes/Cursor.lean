import Linkage.Fault

/-!
Reading big-endian data from front to back.

A `Cursor` holds what is still to be read and how much has been read before it. A `Decoder` is a
computation that moves a cursor forward or stops with a `Fault`; every primitive that fails leaves
the cursor where it was and reports that position.
-/

namespace Linkage

variable {α : Type}

/-- Whether a list has at least `count` elements, looking at no more than `count` of them. -/
def reaches : Nat → List α → Bool
  | 0, _ => true
  | _ + 1, [] => false
  | count + 1, _ :: rest => reaches count rest

@[simp] theorem reaches_eq_true_iff (count : Nat) (list : List α) :
    reaches count list = true ↔ count ≤ list.length := by
  fun_induction reaches count list <;> simp_all

/-- A place in some data: `pos` bytes lie before it and `rest` lies ahead. -/
structure Cursor where
  pos : Nat
  rest : List UInt8
  deriving DecidableEq, Repr

namespace Cursor

def start (bytes : List UInt8) : Cursor := ⟨0, bytes⟩

def remaining (cursor : Cursor) : Nat := cursor.rest.length

def atEnd (cursor : Cursor) : Bool := cursor.rest.isEmpty

end Cursor

/-- A reading of data that moves a cursor or stops with a fault. -/
abbrev Decoder := EStateM Fault Cursor

/-- A computation that needs no data is a decoder that reads nothing. -/
instance : MonadLift (Except Fault) Decoder where
  monadLift result := match result with
    | .ok value => pure value
    | .error fault => throw fault

namespace Decoder

def u1 : Decoder UInt8 := fun cursor =>
  match cursor with
  | ⟨pos, b :: rest⟩ => .ok b ⟨pos + 1, rest⟩
  | ⟨pos, _⟩ => .error (.truncated pos 1) cursor

def u2 : Decoder UInt16 := fun cursor =>
  match cursor with
  | ⟨pos, b₁ :: b₀ :: rest⟩ => .ok (b₁.toUInt16 <<< 8 ||| b₀.toUInt16) ⟨pos + 2, rest⟩
  | ⟨pos, _⟩ => .error (.truncated pos 2) cursor

def u4 : Decoder UInt32 := fun cursor =>
  match cursor with
  | ⟨pos, b₃ :: b₂ :: b₁ :: b₀ :: rest⟩ =>
      .ok (b₃.toUInt32 <<< 24 ||| b₂.toUInt32 <<< 16 ||| b₁.toUInt32 <<< 8 ||| b₀.toUInt32)
        ⟨pos + 4, rest⟩
  | ⟨pos, _⟩ => .error (.truncated pos 4) cursor

def bytes (count : Nat) : Decoder (List UInt8) := fun cursor =>
  if reaches count cursor.rest then
    .ok (cursor.rest.take count) ⟨cursor.pos + count, cursor.rest.drop count⟩
  else
    .error (.truncated cursor.pos count) cursor

def skip (count : Nat) : Decoder Unit := do
  let _ ← bytes count

/-- A four-byte length and then that many bytes. If the bytes are missing, the length stays
read. -/
def u4Prefixed : Decoder (List UInt8) := do
  bytes (← u4).toNat

def many (count : Nat) (decoder : Decoder α) : Decoder (List α) :=
  (List.replicate count decoder).mapM id

def counted (decoder : Decoder α) : Decoder (List α) := do
  many (← u2).toNat decoder

def decode (decoder : Decoder α) (data : List UInt8) : Except Fault α :=
  match decoder (Cursor.start data) with
  | .ok value _ => .ok value
  | .error fault _ => .error fault

/-! ## Decoders only move forward -/

theorem u2_length {cursor next : Cursor} {value : UInt16} (success : u2 cursor = .ok value next) :
    next.rest.length + 2 = cursor.rest.length := by
  unfold u2 at success
  split at success <;> cases success
  rfl

theorem u4_length {cursor next : Cursor} {value : UInt32} (success : u4 cursor = .ok value next) :
    next.rest.length + 4 = cursor.rest.length := by
  unfold u4 at success
  split at success <;> cases success
  rfl

theorem bytes_length {count : Nat} {cursor next : Cursor} {part : List UInt8}
    (success : bytes count cursor = .ok part next) :
    part.length = count ∧ next.rest.length + count = cursor.rest.length := by
  unfold bytes at success
  split at success
  case isTrue enough =>
    rw [reaches_eq_true_iff] at enough
    injection success with taken left
    subst taken left
    simp only [List.length_take, List.length_drop]
    omega
  case isFalse => cases success

theorem ok_of_bind {β : Type} {decoder : Decoder α} {continuation : α → Decoder β}
    {cursor next : Cursor} {value : β}
    (success : (decoder >>= continuation) cursor = .ok value next) :
    ∃ first between, decoder cursor = .ok first between ∧
      continuation first between = .ok value next := by
  change (decoder >>= continuation).run cursor = _ at success
  rw [EStateM.run_bind] at success
  split at success
  case h_1 first between stepped => exact ⟨first, between, stepped, success⟩
  case h_2 => cases success

theorem lift_ok {result : Except Fault α} {cursor next : Cursor} {value : α}
    (success : (liftM result : Decoder α) cursor = .ok value next) :
    result = .ok value ∧ next = cursor := by
  cases result with
  | error => cases success
  | ok => cases success; exact ⟨rfl, rfl⟩

theorem u4Prefixed_length {cursor next : Cursor} {part : List UInt8}
    (success : u4Prefixed cursor = .ok part next) :
    next.rest.length + part.length + 4 = cursor.rest.length := by
  obtain ⟨size, between, sized, taken⟩ := ok_of_bind success
  have front := u4_length sized
  have back := bytes_length taken
  omega

end Decoder

end Linkage
