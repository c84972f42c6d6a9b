import Linkage.Bytes.Utf8
import Mathlib.Tactic.IntervalCases

/-!
# Text and its bytes

The bytes of a text are those of its characters in a row. Reading them gives the text back, since no
character ends in the middle of another's bytes.
-/

namespace Linkage.Utf8

def encode (text : String) : List UInt8 := text.toList.flatMap String.utf8EncodeChar

variable {done : List Char} {n : Nat}

theorem between_ofNat {low high : UInt8} (small : n < 256) (least : low.toNat ≤ n)
    (most : n ≤ high.toNat) : low ≤ UInt8.ofNat n ∧ UInt8.ofNat n ≤ high := by
  rw [UInt8.le_iff_toNat_le, UInt8.le_iff_toNat_le, UInt8.toNat_ofNat_of_lt' small]
  exact ⟨least, most⟩

theorem step_tail {owed bits : Nat} {low high : UInt8} (small : n < 256) (least : low.toNat ≤ n)
    (most : n ≤ high.toNat) :
    step (done, some ⟨owed, low, high, bits⟩) (UInt8.ofNat n) =
      if owed = 1 then (Char.ofNat (bits * 64 + (n - 0x80)) :: done, none)
      else (done, some ⟨owed - 1, 0x80, 0xBF, bits * 64 + (n - 0x80)⟩) := by
  change (if low ≤ UInt8.ofNat n ∧ UInt8.ofNat n ≤ high then _ else _) = _
  rw [if_pos (between_ofNat small least most), UInt8.toNat_ofNat_of_lt' small]

theorem ofLead_two (least : 0xC2 ≤ n) (most : n ≤ 0xDF) :
    Partial.ofLead (UInt8.ofNat n) = some ⟨1, 0x80, 0xBF, n - 0xC0⟩ := by
  interval_cases n <;> rfl

theorem ofLead_three (least : 0xE0 ≤ n) (most : n ≤ 0xEF) :
    Partial.ofLead (UInt8.ofNat n) =
      some ⟨2, if n = 0xE0 then 0xA0 else 0x80, if n = 0xED then 0x9F else 0xBF, n - 0xE0⟩ := by
  interval_cases n <;> rfl

theorem ofLead_four (least : 0xF0 ≤ n) (most : n ≤ 0xF4) :
    Partial.ofLead (UInt8.ofNat n) =
      some ⟨3, if n = 0xF0 then 0x90 else 0x80, if n = 0xF4 then 0x8F else 0xBF, n - 0xF0⟩ := by
  interval_cases n <;> rfl

theorem fresh_lead {started : Partial} (least : 0x80 ≤ n) (small : n < 256)
    (promises : Partial.ofLead (UInt8.ofNat n) = some started) :
    step (done, none) (UInt8.ofNat n) = (done, some started) := by
  change fresh done _ = _
  unfold fresh
  rw [if_neg, promises]
  rw [UInt8.lt_iff_toNat_lt, UInt8.toNat_ofNat_of_lt' small]
  exact Nat.not_lt.mpr least

/-! ## One character, by how many bytes it takes -/

theorem foldl_one (most : n ≤ 0x7F) :
    [UInt8.ofNat n].foldl step (done, none) = (Char.ofNat n :: done, none) := by
  have small : n < 256 := by omega
  change fresh done (UInt8.ofNat n) = _
  unfold fresh
  rw [if_pos, UInt8.toNat_ofNat_of_lt' small]
  rw [UInt8.lt_iff_toNat_lt, UInt8.toNat_ofNat_of_lt' small]
  exact Nat.lt_succ_of_le most

theorem foldl_two (least : 0x7F < n) (most : n ≤ 0x7FF) :
    [UInt8.ofNat (n / 64 % 32 + 0xC0), UInt8.ofNat (n % 64 + 0x80)].foldl step (done, none) =
      (Char.ofNat n :: done, none) := by
  have bits : (n / 64 % 32 + 0xC0 - 0xC0) * 64 + (n % 64 + 0x80 - 0x80) = n := by omega
  rw [List.foldl_cons, fresh_lead (by omega) (by omega) (ofLead_two (by omega) (by omega)),
    List.foldl_cons, step_tail (by omega) (by simp) (by simp; omega), if_pos rfl, List.foldl_nil,
    bits]

/-- Surrogates are not characters, so what follows a lead byte `ED` is small enough. -/
theorem foldl_three (least : 0x7FF < n) (most : n ≤ 0xFFFF) (scalar : n < 0xD800 ∨ 0xDFFF < n) :
    [UInt8.ofNat (n / 4096 % 16 + 0xE0), UInt8.ofNat (n / 64 % 64 + 0x80),
      UInt8.ofNat (n % 64 + 0x80)].foldl step (done, none) = (Char.ofNat n :: done, none) := by
  have bits : ((n / 4096 % 16 + 0xE0 - 0xE0) * 64 + (n / 64 % 64 + 0x80 - 0x80)) * 64 +
      (n % 64 + 0x80 - 0x80) = n := by omega
  have low : (if n / 4096 % 16 + 0xE0 = 0xE0 then (0xA0 : UInt8) else 0x80).toNat ≤
      n / 64 % 64 + 0x80 := by
    split
    · change 0xA0 ≤ _
      omega
    · change 0x80 ≤ _
      omega
  have high : n / 64 % 64 + 0x80 ≤
      (if n / 4096 % 16 + 0xE0 = 0xED then (0x9F : UInt8) else 0xBF).toNat := by
    split
    · change _ ≤ 0x9F
      omega
    · change _ ≤ 0xBF
      omega
  rw [List.foldl_cons, fresh_lead (by omega) (by omega) (ofLead_three (by omega) (by omega)),
    List.foldl_cons, step_tail (by omega) low high, if_neg (by decide), List.foldl_cons,
    step_tail (by omega) (by simp) (by simp; omega), if_pos rfl, List.foldl_nil, bits]

theorem foldl_four (least : 0xFFFF < n) (most : n < 0x110000) :
    [UInt8.ofNat (n / 262144 % 8 + 0xF0), UInt8.ofNat (n / 4096 % 64 + 0x80),
      UInt8.ofNat (n / 64 % 64 + 0x80), UInt8.ofNat (n % 64 + 0x80)].foldl step (done, none) =
      (Char.ofNat n :: done, none) := by
  have bits : (((n / 262144 % 8 + 0xF0 - 0xF0) * 64 + (n / 4096 % 64 + 0x80 - 0x80)) * 64 +
      (n / 64 % 64 + 0x80 - 0x80)) * 64 + (n % 64 + 0x80 - 0x80) = n := by omega
  have low : (if n / 262144 % 8 + 0xF0 = 0xF0 then (0x90 : UInt8) else 0x80).toNat ≤
      n / 4096 % 64 + 0x80 := by
    split
    · change 0x90 ≤ _
      omega
    · change 0x80 ≤ _
      omega
  have high : n / 4096 % 64 + 0x80 ≤
      (if n / 262144 % 8 + 0xF0 = 0xF4 then (0x8F : UInt8) else 0xBF).toNat := by
    split
    · change _ ≤ 0x8F
      omega
    · change _ ≤ 0xBF
      omega
  rw [List.foldl_cons, fresh_lead (by omega) (by omega) (ofLead_four (by omega) (by omega)),
    List.foldl_cons, step_tail (by omega) low high, if_neg (by decide), List.foldl_cons,
    step_tail (by omega) (by simp) (by simp; omega), if_neg (by decide), List.foldl_cons,
    step_tail (by omega) (by simp) (by simp; omega), if_pos rfl, List.foldl_nil, bits]

/-! ## A whole text -/

theorem foldl_encodeChar (c : Char) :
    (String.utf8EncodeChar c).foldl step (done, none) = (c :: done, none) := by
  have scalar : c.val.toNat < 0xD800 ∨ 0xDFFF < c.val.toNat ∧ c.val.toNat < 0x110000 := c.valid
  have whole : Char.ofNat c.val.toNat = c := Char.ofNat_toNat c
  unfold String.utf8EncodeChar
  generalize c.val.toNat = n at scalar whole
  rw [← whole]
  by_cases one : n ≤ 0x7F
  · simp only [if_pos one]
    exact foldl_one one
  by_cases two : n ≤ 0x7FF
  · simp only [if_neg one, if_pos two]
    exact foldl_two (by omega) two
  by_cases three : n ≤ 0xFFFF
  · simp only [if_neg one, if_neg two, if_pos three]
    exact foldl_three (by omega) three (by omega)
  · simp only [if_neg one, if_neg two, if_neg three]
    exact foldl_four (by omega) (by omega)

theorem decodeLossy_encode (text : String) : decodeLossy (encode text) = text := by
  have read (chars done : List Char) :
      (chars.flatMap String.utf8EncodeChar).foldl step (done, none) =
        (chars.reverse ++ done, none) := by
    induction chars generalizing done with
    | nil => rfl
    | cons c chars ih =>
      rw [List.flatMap_cons, List.foldl_append, foldl_encodeChar, ih]
      simp
  unfold decodeLossy encode
  rw [read]
  simp

end Linkage.Utf8
