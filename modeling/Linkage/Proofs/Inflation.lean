import Linkage.Archive.Deflate
import Linkage.Proofs.Runs

/-!
# Inflating to the end

`Deflate.Inflates` says what a deflate stream stands for, whatever its length: the output of its
blocks up to the last one. Inflating up to a limit gives just that, if it is no longer than the
limit: `inflate_eq_ok`. Nothing is cut off.
-/

namespace Linkage.Deflate

variable {data : ByteArray} {literals distances : Code} {limit : Nat}

/-! ## What streams stand for -/

/-- A place in the data at bit number `pos` or behind it. -/
abbrev Onward (data : ByteArray) (pos : Nat) :=
  { next : Nat // pos ≤ next ∧ next ≤ max pos (bitCount data) }

/-- The output with bytes repeated from some distance behind its end, each as soon as it is
there. -/
def repeated (distance : Nat) : (count : Nat) → ByteArray → ByteArray
  | 0, out => out
  | count + 1, out => repeated distance count (out.push (earlier out distance))

/-- The output of a block's codes from bit `pos` on, behind the output so far. Bit `last` follows
the symbol that ends the block. -/
inductive Codes (data : ByteArray) (literals distances : Code) :
    (out : ByteArray) → (pos : Nat) → (final : ByteArray) → (last : Nat) → Prop
  | stop {out : ByteArray} {pos : Nat} {next : Ahead data pos}
      (read : literals.symbol data pos = .ok (256, next)) :
      Codes data literals distances out pos out next.1
  | literal {out final : ByteArray} {pos symbol last : Nat} {next : Ahead data pos}
      (read : literals.symbol data pos = .ok (symbol, next)) (small : symbol < 256)
      (rest : Codes data literals distances (out.push symbol.toUInt8) next.1 final last) :
      Codes data literals distances out pos final last
  | repeats {out final : ByteArray} {pos symbol length far distance last : Nat}
      {next : Ahead data pos} {afterLength : Onward data next.1}
      {afterCode : Ahead data afterLength.1} {afterDistance : Onward data afterCode.1}
      (read : literals.symbol data pos = .ok (symbol, next)) (large : 256 < symbol)
      (lengthRead : extended lengthCodes (symbol - 257) data next.1 = .ok (length, afterLength))
      (farRead : distances.symbol data afterLength.1 = .ok (far, afterCode))
      (distanceRead :
        extended distanceCodes far data afterCode.1 = .ok (distance, afterDistance))
      (rest : Codes data literals distances (repeated distance length out) afterDistance.1
        final last) :
      Codes data literals distances out pos final last

inductive Block (data : ByteArray) :
    (out : ByteArray) → (pos : Nat) → (final : ByteArray) → (last : Nat) → Prop
  | stored {out : ByteArray} {pos start length flipped : Nat}
      (kind : number data 2 pos = .ok 0) (aligned : start = (pos + 2 + 7) / 8)
      (lengthRead : number data 16 (8 * start) = .ok length)
      (flippedRead : number data 16 (8 * (start + 2)) = .ok flipped)
      (opposite : length + flipped = 0xFFFF) (inside : start + 4 + length ≤ data.size) :
      Block data out pos (out ++ data.extract (start + 4) (start + 4 + length))
        (8 * (start + 4 + length))
  | fixed {out final : ByteArray} {pos last : Nat} (kind : number data 2 pos = .ok 1)
      (codes : Codes data fixedLiterals fixedDistances out (pos + 2) final last) :
      Block data out pos final last
  | own {out final : ByteArray} {pos last : Nat} {literals distances : Code}
      {start : { next : Nat // pos + 2 < next }} (kind : number data 2 pos = .ok 2)
      (read : ownCodes data (pos + 2) = .ok (literals, distances, start))
      (codes : Codes data literals distances out start.1 final last) :
      Block data out pos final last

inductive Blocks (data : ByteArray) :
    (out : ByteArray) → (pos : Nat) → (final : ByteArray) → Prop
  | last {out final : ByteArray} {pos next : Nat} {start : Ahead data pos}
      (mark : bit data pos = .ok (1, start)) (block : Block data out start.1 final next) :
      Blocks data out pos final
  | more {out between final : ByteArray} {pos mark next : Nat} {start : Ahead data pos}
      (unmarked : bit data pos = .ok (mark, start)) (other : mark ≠ 1)
      (block : Block data out start.1 between next) (rest : Blocks data between next final) :
      Blocks data out pos final

def Inflates (data bytes : ByteArray) : Prop := Blocks data ByteArray.empty 0 bytes

/-! ## Output only grows -/

variable {out final : ByteArray} {pos last : Nat}

theorem size_repeated (distance count : Nat) :
    (repeated distance count out).size = out.size + count := by
  induction count generalizing out with
  | zero => rfl
  | succ count ih =>
    rw [repeated, ih, ByteArray.size_push]
    omega

theorem Codes.size_le (codes : Codes data literals distances out pos final last) :
    out.size ≤ final.size := by
  induction codes with
  | stop => exact Nat.le_refl _
  | literal _ _ _ ih =>
    rw [ByteArray.size_push] at ih
    omega
  | repeats _ _ _ _ _ _ ih =>
    rw [size_repeated] at ih
    omega

theorem Block.size_le (block : Block data out pos final last) : out.size ≤ final.size := by
  cases block with
  | stored => simp
  | fixed _ codes => exact codes.size_le
  | own _ _ codes => exact codes.size_le

theorem Blocks.size_le (blocks : Blocks data out pos final) : out.size ≤ final.size := by
  induction blocks with
  | last _ block => exact block.size_le
  | more _ _ block _ ih => exact Nat.le_trans block.size_le ih

/-! ## The limit -/

theorem emit_eq_ok {byte : UInt8} :
    emit limit out byte = .ok final ↔ out.size < limit ∧ out.push byte = final := by
  unfold emit
  by_cases room : out.size < limit <;> simp [room]

theorem copy_eq_ok {distance count : Nat} (within : out.size ≤ limit) :
    copy limit distance count out = .ok final ↔
      repeated distance count out = final ∧ final.size ≤ limit := by
  induction count generalizing out with
  | zero =>
    rw [copy, repeated]
    constructor
    · rintro ⟨⟩
      exact ⟨rfl, within⟩
    · rintro ⟨rfl, -⟩
      rfl
  | succ count ih =>
    simp only [copy, bind_eq_ok, emit_eq_ok, repeated]
    constructor
    · rintro ⟨_, ⟨room, rfl⟩, rest⟩
      exact (ih (by rw [ByteArray.size_push]; omega)).mp rest
    · rintro ⟨rfl, short⟩
      have length := short
      rw [size_repeated, ByteArray.size_push] at length
      refine ⟨_, ⟨by omega, rfl⟩, (ih ?_).mpr ⟨rfl, short⟩⟩
      rw [ByteArray.size_push]
      omega

theorem codes_of_coded {next : Ahead data pos} (within : out.size ≤ limit)
    (ran : coded data limit literals distances out pos = .ok (final, next)) :
    Codes data literals distances out pos final next.1 ∧ final.size ≤ limit := by
  induction left : bitCount data - pos using Nat.strongRecOn generalizing out pos with
  | _ left ih =>
    subst left
    rw [coded] at ran
    obtain ⟨⟨symbol, behind⟩, read, ran⟩ := bind_eq_ok.mp ran
    have ahead := behind.2
    dsimp only at ran
    split at ran
    case isTrue ends =>
      cases ran
      exact ⟨.stop (ends ▸ read), within⟩
    case isFalse goes =>
      split at ran
      case isTrue small =>
        obtain ⟨more, emitted, ran⟩ := bind_eq_ok.mp ran
        obtain ⟨⟨_, last⟩, rest, done⟩ := bind_eq_ok.mp ran
        obtain ⟨room, rfl⟩ := emit_eq_ok.mp emitted
        cases done
        have step := ih _ (by omega) (by rw [ByteArray.size_push]; omega) rest rfl
        exact ⟨.literal read small step.1, step.2⟩
      case isFalse large =>
        obtain ⟨⟨length, afterLength⟩, lengthRead, ran⟩ := bind_eq_ok.mp ran
        obtain ⟨⟨far, afterCode⟩, farRead, ran⟩ := bind_eq_ok.mp ran
        obtain ⟨⟨distance, afterDistance⟩, distanceRead, ran⟩ := bind_eq_ok.mp ran
        obtain ⟨more, copied, ran⟩ := bind_eq_ok.mp ran
        obtain ⟨⟨_, last⟩, rest, done⟩ := bind_eq_ok.mp ran
        obtain ⟨rfl, room⟩ := (copy_eq_ok within).mp copied
        cases done
        have onward := afterLength.2
        have codeAhead := afterCode.2
        have onwardAgain := afterDistance.2
        dsimp only at *
        have step := ih _ (by omega) room rest rfl
        exact ⟨.repeats read (by omega) lengthRead farRead distanceRead step.1, step.2⟩

theorem Codes.coded (codes : Codes data literals distances out pos final last)
    (short : final.size ≤ limit) :
    ∃ next, Deflate.coded data limit literals distances out pos = .ok (final, next) ∧
      next.1 = last := by
  induction codes with
  | stop read =>
    rw [Deflate.coded]
    exact ⟨_, bind_eq_ok.mpr ⟨_, read, rfl⟩, rfl⟩
  | @literal out _ _ symbol _ _ read small rest ih =>
    obtain ⟨next, ran, rfl⟩ := ih short
    have room := rest.size_le
    rw [ByteArray.size_push] at room
    have emitted : emit limit out symbol.toUInt8 = .ok (out.push symbol.toUInt8) :=
      emit_eq_ok.mpr ⟨Nat.lt_of_lt_of_le room short, rfl⟩
    rw [Deflate.coded, read]
    simp only [bind, Except.bind, Nat.ne_of_lt small, small, if_true, if_false, emitted, ran]
    exact ⟨_, rfl, rfl⟩
  | repeats read large lengthRead farRead distanceRead rest ih =>
    obtain ⟨next, ran, rfl⟩ := ih short
    have room := rest.size_le
    have within := room
    rw [size_repeated] at within
    have copied := (copy_eq_ok (by omega)).mpr ⟨rfl, Nat.le_trans room short⟩
    rw [Deflate.coded, read]
    simp only [bind, Except.bind, Nat.ne_of_gt large, Nat.lt_asymm large, if_false, lengthRead,
      farRead, distanceRead, copied, ran]
    exact ⟨_, rfl, rfl⟩

theorem block_of_stored {next : Ahead data (pos + 2)} (kind : number data 2 pos = .ok 0)
    (within : out.size ≤ limit) (ran : stored data limit out (pos + 2) = .ok (final, next)) :
    Block data out pos final next.1 ∧ final.size ≤ limit := by
  unfold stored at ran
  obtain ⟨length, lengthRead, ran⟩ := bind_eq_ok.mp ran
  obtain ⟨flipped, flippedRead, ran⟩ := bind_eq_ok.mp ran
  dsimp only at ran
  split at ran
  case isTrue => cases ran
  case isFalse opposite =>
    split at ran
    case isTrue => cases ran
    case isFalse room =>
      split at ran
      case isFalse => cases ran
      case isTrue inside =>
        cases ran
        refine ⟨.stored kind rfl lengthRead flippedRead (not_not.mp opposite) inside, ?_⟩
        rw [ByteArray.size_append, ByteArray.size_extract]
        omega

theorem stored_of_opposite {start length flipped : Nat} (aligned : start = (pos + 7) / 8)
    (lengthRead : number data 16 (8 * start) = .ok length)
    (flippedRead : number data 16 (8 * (start + 2)) = .ok flipped)
    (opposite : length + flipped = 0xFFFF) (inside : start + 4 + length ≤ data.size)
    (short : (out ++ data.extract (start + 4) (start + 4 + length)).size ≤ limit) :
    ∃ next, stored data limit out pos =
        .ok (out ++ data.extract (start + 4) (start + 4 + length), next) ∧
      next.1 = 8 * (start + 4 + length) := by
  subst aligned
  rw [ByteArray.size_append, ByteArray.size_extract] at short
  have room : ¬ limit < out.size + min length (data.size - ((pos + 7) / 8 + 4)) := by omega
  unfold stored
  simp only [bind, Except.bind, lengthRead, flippedRead, ne_eq, opposite, not_true, if_false, room,
    inside, dif_pos, pure, Except.pure]
  exact ⟨_, rfl, rfl⟩

theorem Block.block (block : Block data out pos final last) (short : final.size ≤ limit) :
    ∃ next, Deflate.block data limit out pos = .ok (final, next) ∧ next.1 = last := by
  cases block with
  | stored kind aligned lengthRead flippedRead opposite inside =>
    obtain ⟨next, ran, same⟩ :=
      stored_of_opposite aligned lengthRead flippedRead opposite inside short
    rw [Deflate.block, kind]
    exact ⟨_, bind_eq_ok.mpr ⟨_, rfl, bind_eq_ok.mpr ⟨_, ran, rfl⟩⟩, same⟩
  | fixed kind codes =>
    obtain ⟨next, ran, rfl⟩ := codes.coded short
    rw [Deflate.block, kind]
    exact ⟨_, bind_eq_ok.mpr ⟨_, rfl, bind_eq_ok.mpr ⟨_, ran, rfl⟩⟩, rfl⟩
  | own kind read codes =>
    obtain ⟨next, ran, rfl⟩ := codes.coded short
    rw [Deflate.block, kind]
    exact ⟨_, bind_eq_ok.mpr ⟨_, rfl,
      bind_eq_ok.mpr ⟨_, read, bind_eq_ok.mpr ⟨_, ran, rfl⟩⟩⟩, rfl⟩

theorem block_of_block {next : Ahead data pos} (within : out.size ≤ limit)
    (ran : block data limit out pos = .ok (final, next)) :
    Block data out pos final next.1 ∧ final.size ≤ limit := by
  unfold block at ran
  obtain ⟨kind, kindRead, ran⟩ := bind_eq_ok.mp ran
  split at ran
  · obtain ⟨⟨_, next⟩, opened, done⟩ := bind_eq_ok.mp ran
    cases done
    exact block_of_stored kindRead within opened
  · obtain ⟨⟨_, next⟩, opened, done⟩ := bind_eq_ok.mp ran
    cases done
    obtain ⟨codes, room⟩ := codes_of_coded within opened
    exact ⟨.fixed kindRead codes, room⟩
  · obtain ⟨⟨literals, distances, start⟩, read, ran⟩ := bind_eq_ok.mp ran
    obtain ⟨⟨_, next⟩, opened, done⟩ := bind_eq_ok.mp ran
    cases done
    obtain ⟨codes, room⟩ := codes_of_coded within opened
    exact ⟨.own kindRead read codes, room⟩
  · cases ran

theorem blocks_of_blocks (within : out.size ≤ limit)
    (ran : blocks data limit out pos = .ok final) :
    Blocks data out pos final ∧ final.size ≤ limit := by
  induction left : bitCount data - pos using Nat.strongRecOn generalizing out pos with
  | _ left ih =>
    subst left
    rw [blocks] at ran
    obtain ⟨⟨mark, start⟩, marked, ran⟩ := bind_eq_ok.mp ran
    obtain ⟨⟨between, next⟩, opened, ran⟩ := bind_eq_ok.mp ran
    obtain ⟨block, room⟩ := block_of_block within opened
    have ahead := start.2
    have further := next.2
    dsimp only at *
    split at ran
    case isTrue last =>
      cases ran
      exact ⟨.last (last ▸ marked) block, room⟩
    case isFalse other =>
      obtain ⟨rest, short⟩ := ih _ (by omega) room ran rfl
      exact ⟨.more marked other block rest, short⟩

theorem Blocks.blocks (blocks : Blocks data out pos final) (short : final.size ≤ limit) :
    Deflate.blocks data limit out pos = .ok final := by
  induction blocks with
  | last mark block =>
    obtain ⟨next, ran, rfl⟩ := block.block short
    rw [Deflate.blocks]
    exact bind_eq_ok.mpr ⟨_, mark, bind_eq_ok.mpr ⟨_, ran, rfl⟩⟩
  | more unmarked other block rest ih =>
    obtain ⟨next, ran, rfl⟩ := block.block (Nat.le_trans rest.size_le short)
    rw [Deflate.blocks]
    refine bind_eq_ok.mpr ⟨_, unmarked, bind_eq_ok.mpr ⟨_, ran, ?_⟩⟩
    exact (if_neg other).trans (ih short)

/-- Inflating gives all that a stream stands for, if that is no longer than asked for. -/
theorem inflate_eq_ok {bytes : ByteArray} :
    inflate limit data = .ok bytes ↔ Inflates data bytes ∧ bytes.size ≤ limit :=
  ⟨blocks_of_blocks (Nat.zero_le limit), fun inflates => inflates.1.blocks inflates.2⟩

theorem Inflates.unique {bytes bytes' : ByteArray} (inflates : Inflates data bytes)
    (inflates' : Inflates data bytes') : bytes = bytes' := by
  have read : inflate (max bytes.size bytes'.size) data = .ok bytes :=
    inflate_eq_ok.mpr ⟨inflates, Nat.le_max_left _ _⟩
  rw [inflate_eq_ok.mpr ⟨inflates', Nat.le_max_right _ _⟩] at read
  exact (Except.ok.inj read).symm

end Linkage.Deflate
