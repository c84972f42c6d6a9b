import Linkage.Bytes.LittleEndian
import Linkage.Proofs.Decoding

/-!
# Little-endian data

What is read at an offset is what lies there.
-/

namespace Linkage.LittleEndian

open Decoder (join_two two_join join_four join_toNat)

def two (n : UInt16) : List UInt8 := [n.toUInt8, (n >>> 8).toUInt8]

def four (n : UInt32) : List UInt8 :=
  [n.toUInt8, (n >>> 8).toUInt8, (n >>> 16).toUInt8, (n >>> 24).toUInt8]

theorem or_reversed (a b c d : UInt32) : a ||| b ||| c ||| d = d ||| c ||| b ||| a := by ac_rfl

theorem four_join (b₀ b₁ b₂ b₃ : UInt8) :
    four (b₀.toUInt32 ||| b₁.toUInt32 <<< 8 ||| b₂.toUInt32 <<< 16 ||| b₃.toUInt32 <<< 24) =
      [b₀, b₁, b₂, b₃] := by
  have total := join_toNat b₃ b₂ b₁ b₀
  have small₀ := b₀.toNat_lt
  have small₁ := b₁.toNat_lt
  have small₂ := b₂.toNat_lt
  have small₃ := b₃.toNat_lt
  rw [or_reversed]
  generalize b₃.toUInt32 <<< 24 ||| b₂.toUInt32 <<< 16 ||| b₁.toUInt32 <<< 8
    ||| b₀.toUInt32 = n at *
  simp only [four, List.cons.injEq, and_true, ← UInt8.toNat_inj, UInt32.toNat_toUInt8,
    UInt32.toNat_shiftRight, UInt32.reduceToNat, Nat.reduceMod, Nat.shiftRight_eq_div_pow, total]
  omega

def HoldsAt (data : ByteArray) (offset : Nat) (part : List UInt8) : Prop :=
  ∃ before after, data.data.toList = before ++ (part ++ after) ∧ before.length = offset

variable {data : ByteArray} {offset : Nat} {part other : List UInt8}

namespace HoldsAt

theorem left (holds : HoldsAt data offset (part ++ other)) : HoldsAt data offset part := by
  obtain ⟨before, after, bytes, length⟩ := holds
  exact ⟨before, other ++ after, by rw [bytes, List.append_assoc], length⟩

theorem right (holds : HoldsAt data offset (part ++ other)) :
    HoldsAt data (offset + part.length) other := by
  obtain ⟨before, after, bytes, length⟩ := holds
  refine ⟨before ++ part, after, ?_, by rw [List.length_append, length]⟩
  rw [bytes, List.append_assoc, List.append_assoc]

theorem piece {pieces : List (List UInt8)} (holds : HoldsAt data offset pieces.flatten)
    (index place : Nat) (listed : pieces[index]? = some part)
    (before : (pieces.take index).flatten.length = place) :
    HoldsAt data (offset + place) part := by
  obtain ⟨inside, rfl⟩ := List.getElem?_eq_some_iff.mp listed
  rw [← List.take_append_drop index pieces, List.flatten_append, List.drop_eq_getElem_cons inside,
    List.flatten_cons] at holds
  rw [← before]
  exact holds.right.left

theorem size_le (holds : HoldsAt data offset part) : offset + part.length ≤ data.size := by
  obtain ⟨before, after, bytes, length⟩ := holds
  have total := congrArg List.length bytes
  simp only [Array.length_toList, ByteArray.size_data, List.length_append] at total
  omega

theorem getElem (holds : HoldsAt data offset part) {place : Nat} (index : Nat)
    (inside : index < part.length) (placed : offset + index = place) (bound : place < data.size) :
    data[place] = part[index] := by
  obtain ⟨before, after, bytes, length⟩ := holds
  subst length placed
  have listed : data.data.toList[before.length + index]? = some data[before.length + index] :=
    List.getElem?_eq_getElem bound
  rw [bytes, List.getElem?_append_right (Nat.le_add_right _ _), Nat.add_sub_cancel_left,
    List.getElem?_append_left inside, List.getElem?_eq_getElem inside] at listed
  exact (Option.some.inj listed).symm

theorem slice {count : Nat} (holds : HoldsAt data offset part) (exact : part.length = count) :
    sliceAt data offset count = .ok ⟨part.toArray⟩ := by
  subst exact
  rw [sliceAt, if_pos holds.size_le]
  obtain ⟨before, after, bytes, length⟩ := holds
  subst length
  congr 1
  apply ByteArray.ext
  apply Array.toList_inj.mp
  simp [bytes]

theorem u16 {n : UInt16} (holds : HoldsAt data offset (two n)) : u16At data offset = .ok n := by
  have inside : offset + 2 ≤ data.size := holds.size_le
  rw [u16At, dif_pos inside, holds.getElem 0 (by simp [two]) offset.add_zero,
    holds.getElem 1 (by simp [two]) rfl]
  change Except.ok (n.toUInt8.toUInt16 ||| (n >>> 8).toUInt8.toUInt16 <<< 8) = _
  rw [UInt16.or_comm, join_two]

theorem u32 {n : UInt32} (holds : HoldsAt data offset (four n)) : u32At data offset = .ok n := by
  have inside : offset + 4 ≤ data.size := holds.size_le
  rw [u32At, dif_pos inside, holds.getElem 0 (by simp [four]) offset.add_zero,
    holds.getElem 1 (by simp [four]) rfl, holds.getElem 2 (by simp [four]) rfl,
    holds.getElem 3 (by simp [four]) rfl]
  change Except.ok (n.toUInt8.toUInt32 ||| (n >>> 8).toUInt8.toUInt32 <<< 8
    ||| (n >>> 16).toUInt8.toUInt32 <<< 16 ||| (n >>> 24).toUInt8.toUInt32 <<< 24) = _
  rw [or_reversed, join_four]

end HoldsAt

/-! ## What lies where something is read -/

theorem holdsAt_part {count : Nat} (inside : offset + count ≤ data.size) :
    HoldsAt data offset ((data.data.toList.drop offset).take count) := by
  refine ⟨data.data.toList.take offset, data.data.toList.drop (offset + count), ?_, ?_⟩
  · rw [← List.drop_drop, List.take_append_drop, List.take_append_drop]
  · rw [List.length_take, Array.length_toList, ByteArray.size_data]
    omega

theorem drop_cons {place : Nat} (bound : place < data.size) :
    data.data.toList.drop place = data[place] :: data.data.toList.drop (place + 1) :=
  List.drop_eq_getElem_cons bound

theorem u16At_eq_ok {n : UInt16} : u16At data offset = .ok n ↔ HoldsAt data offset (two n) := by
  refine ⟨fun read => ?_, HoldsAt.u16⟩
  unfold u16At at read
  split at read
  case isTrue inside =>
    injection read with joined
    have part := holdsAt_part inside
    rw [drop_cons (by omega), drop_cons (by omega)] at part
    rw [← joined, UInt16.or_comm]
    change HoldsAt data offset (twoBytes _).reverse
    rw [two_join]
    exact part
  case isFalse => cases read

theorem u32At_eq_ok {n : UInt32} : u32At data offset = .ok n ↔ HoldsAt data offset (four n) := by
  refine ⟨fun read => ?_, HoldsAt.u32⟩
  unfold u32At at read
  split at read
  case isTrue inside =>
    injection read with joined
    have part := holdsAt_part inside
    rw [drop_cons (by omega), drop_cons (by omega), drop_cons (by omega), drop_cons (by omega)]
      at part
    rw [← joined, four_join]
    exact part
  case isFalse => cases read

theorem sliceAt_eq_ok {count : Nat} {part : ByteArray} : sliceAt data offset count = .ok part ↔
    offset + count ≤ data.size ∧ data.extract offset (offset + count) = part := by
  unfold sliceAt
  by_cases inside : offset + count ≤ data.size <;> simp [inside]

theorem holdsAt_slice {count : Nat} (inside : offset + count ≤ data.size) :
    HoldsAt data offset (data.extract offset (offset + count)).data.toList := by
  simpa using holdsAt_part inside

end Linkage.LittleEndian
