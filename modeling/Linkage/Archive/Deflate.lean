/-!
Inflating deflated data.

A deflate stream is a row of blocks, each stored as it is, coded with fixed codes, or coded with
codes of its own. Bits are numbered from the lowest bit of the first byte; every reader takes the
number of the next bit and returns the number of the bit after what it read, with a proof that it
moved ahead and stayed inside the data. What follows the last block does not matter.

Inflating stops as soon as more bytes come out than asked for, whatever comes after them.
-/

namespace Linkage.Deflate

inductive Stop
  | incomplete
  | corrupt
  | tooLong
  deriving DecidableEq, Repr

def bitCount (data : ByteArray) : Nat := 8 * data.size

/-- A place in the data further on than bit number `pos`. -/
abbrev Ahead (data : ByteArray) (pos : Nat) := { next : Nat // pos < next ∧ next ≤ bitCount data }

def bit (data : ByteArray) (pos : Nat) : Except Stop (Nat × Ahead data pos) :=
  if h : pos < bitCount data then
    have : pos / 8 < data.size := by unfold bitCount at h; omega
    .ok ((data[pos / 8] >>> (pos % 8).toUInt8).toNat % 2, ⟨pos + 1, by omega⟩)
  else .error .incomplete

/-- A number of `count` bits, the lowest one first. -/
def number (data : ByteArray) (count pos : Nat) : Except Stop Nat :=
  if pos + count ≤ bitCount data then
    .ok ((List.range count).foldl (fun total place =>
      match bit data (pos + place) with
      | .ok (one, _) => total + one <<< place
      | .error _ => total) 0)
  else .error .incomplete

theorem number_fits {data : ByteArray} {count pos value : Nat}
    (read : number data count pos = .ok value) : pos + count ≤ bitCount data := by
  unfold number at read
  split at read
  · assumption
  · cases read

/-- A canonical code: how many symbols have codes of 1, 2, … bits, up to the longest ones, and the
symbols in the order of their codes, shorter ones first. -/
structure Code where
  counts : List Nat
  symbols : Array Nat
  deriving DecidableEq, Repr

namespace Code

/-- The code in which symbol number `i` has a code as long as the `i`th length says, or none if that
is 0. -/
def ofLengths (lengths : List Nat) : Code :=
  let sizes := (List.range (lengths.foldl max 1)).map (· + 1)
  let symbolsOf (size : Nat) : List Nat :=
    (lengths.zipIdx.filter fun (length, _) => length = size).map Prod.snd
  ⟨sizes.map lengths.count, (sizes.flatMap symbolsOf).toArray⟩

/-- How many of the sequences that are as long as the longest codes open with a code, where a
sequence counts once for each code that it opens with. -/
def covered (code : Code) : Nat := code.counts.foldl (fun covered count => 2 * covered + count) 0

/-- Whether every sequence of bits opens with exactly one code. -/
def isComplete (code : Code) : Bool := code.covered = 1 <<< code.counts.length

/-- Whether a block may be written in a code. A code that leaves sequences of bits over must have
one symbol, with a code of one bit, or none at all. -/
def isUsable (code : Code) : Bool := code.isComplete || code.counts = [0] || code.counts = [1]

/-- The place in `symbols` of the next code. Of the codes as long as what was read before, the first
would be `first` and has place `index`; `code` was read. Bits as long as the longest codes that open
with no code are found corrupt without a look at those behind them. -/
def place (data : ByteArray) (first index code : Nat) :
    (counts : List Nat) → (pos : Nat) → Except Stop (Nat × Ahead data pos)
  | [], _ => .error .corrupt
  | count :: counts, pos => do
      let (one, next) ← bit data pos
      let code := code + one
      if code < first + count then return (index + (code - first), next)
      let (found, last) ← place data ((first + count) * 2) (index + count) (code * 2) counts next.1
      return (found, ⟨last.1, by have := last.2; have := next.2; omega⟩)

def symbol (code : Code) (data : ByteArray) (pos : Nat) : Except Stop (Nat × Ahead data pos) := do
  let (found, next) ← place data 0 0 0 code.counts pos
  match code.symbols[found]? with
  | some symbol => return (symbol, next)
  | none => throw .corrupt

end Code

def emit (limit : Nat) (out : ByteArray) (byte : UInt8) : Except Stop ByteArray :=
  if out.size < limit then .ok (out.push byte) else .error .tooLong

/-- The byte that came out `distance` bytes ago. Zeros are taken to have come out before the first
byte. -/
def earlier (out : ByteArray) (distance : Nat) : UInt8 :=
  if distance ≤ out.size then (out[out.size - distance]?).getD 0 else 0

def copy (limit distance : Nat) : (count : Nat) → ByteArray → Except Stop ByteArray
  | 0, out => .ok out
  | count + 1, out => do
      copy limit distance count (← emit limit out (earlier out distance))

/-- The shortest length that symbol `257 + i` stands for, and how many further bits add to it. -/
def lengthCodes : Array (Nat × Nat) := #[
  (3, 0), (4, 0), (5, 0), (6, 0), (7, 0), (8, 0), (9, 0), (10, 0), (11, 1), (13, 1), (15, 1),
  (17, 1), (19, 2), (23, 2), (27, 2), (31, 2), (35, 3), (43, 3), (51, 3), (59, 3), (67, 4),
  (83, 4), (99, 4), (115, 4), (131, 5), (163, 5), (195, 5), (227, 5), (258, 0)]

/-- The shortest distance that distance symbol `i` stands for, and how many further bits add to
it. -/
def distanceCodes : Array (Nat × Nat) := #[
  (1, 0), (2, 0), (3, 0), (4, 0), (5, 1), (7, 1), (9, 2), (13, 2), (17, 3), (25, 3), (33, 4),
  (49, 4), (65, 5), (97, 5), (129, 6), (193, 6), (257, 7), (385, 7), (513, 8), (769, 8),
  (1025, 9), (1537, 9), (2049, 10), (3073, 10), (4097, 11), (6145, 11), (8193, 12), (12289, 12),
  (16385, 13), (24577, 13)]

def extended (codes : Array (Nat × Nat)) (symbol : Nat) (data : ByteArray) (pos : Nat) :
    Except Stop (Nat × { next : Nat // pos ≤ next ∧ next ≤ max pos (bitCount data) }) :=
  match codes[symbol]? with
  | none => .error .corrupt
  | some (least, bits) =>
    match read : number data bits pos with
    | .ok more =>
      have := number_fits read
      .ok (least + more, ⟨pos + bits, by omega⟩)
    | .error stop => .error stop

/-- What comes out of a block's codes up to the symbol 256, which ends it. -/
def coded (data : ByteArray) (limit : Nat) (literals distances : Code) (out : ByteArray)
    (pos : Nat) : Except Stop (ByteArray × Ahead data pos) := do
  let (symbol, next) ← literals.symbol data pos
  have := next.2
  if symbol = 256 then return (out, next)
  if symbol < 256 then
    let out ← emit limit out symbol.toUInt8
    let (out, last) ← coded data limit literals distances out next.1
    return (out, ⟨last.1, by have := last.2; omega⟩)
  let (length, afterLength) ← extended lengthCodes (symbol - 257) data next.1
  have := afterLength.2
  let (far, afterCode) ← distances.symbol data afterLength.1
  have := afterCode.2
  let (distance, afterDistance) ← extended distanceCodes far data afterCode.1
  have := afterDistance.2
  let out ← copy limit distance length out
  let (out, last) ← coded data limit literals distances out afterDistance.1
  return (out, ⟨last.1, by have := last.2; omega⟩)
termination_by bitCount data - pos

/-- What comes out of a stored block, whose length and flipped length begin at the next byte. -/
def stored (data : ByteArray) (limit : Nat) (out : ByteArray) (pos : Nat) :
    Except Stop (ByteArray × Ahead data pos) := do
  let start := (pos + 7) / 8
  let length ← number data 16 (8 * start)
  let flipped ← number data 16 (8 * (start + 2))
  if length + flipped ≠ 0xFFFF then throw .corrupt
  let present := min length (data.size - (start + 4))
  if limit < out.size + present then throw .tooLong
  if fits : start + 4 + length ≤ data.size then
    return (out ++ data.extract (start + 4) (start + 4 + length),
      ⟨8 * (start + 4 + length), by unfold bitCount; omega⟩)
  else throw .incomplete

/-! ## A block's own codes -/

/-- The symbols of the code for code lengths, in the order in which their lengths are given. -/
def lengthOrder : List Nat := [16, 17, 18, 0, 8, 7, 9, 6, 10, 5, 11, 4, 12, 3, 13, 2, 14, 1, 15]

/-- Code lengths up to `total` of them, behind those read before, of which the last comes first.
Symbols from 16 on repeat the length before or 0. -/
def codeLengths (data : ByteArray) (code : Code) (total : Nat) (before : List Nat) (pos : Nat) :
    Except Stop (List Nat × { next : Nat // pos ≤ next }) := do
  if total ≤ before.length then
    if before.length = total then return (before.reverse, ⟨pos, Nat.le_refl _⟩)
    throw .corrupt
  let (symbol, next) ← code.symbol data pos
  have := next.2
  if symbol < 16 then
    let (lengths, last) ← codeLengths data code total (symbol :: before) next.1
    return (lengths, ⟨last.1, by have := last.2; omega⟩)
  let (repeated, least, bits) ← match symbol, before with
    | 16, length :: _ => pure (length, 3, 2)
    | 16, [] => throw .corrupt
    | 17, _ => pure (0, 3, 3)
    | _, _ => pure (0, 11, 7)
  let more ← number data bits next.1
  let (lengths, last) ← codeLengths data code total
    (List.replicate (least + more) repeated ++ before) (next.1 + bits)
  return (lengths, ⟨last.1, by have := last.2; omega⟩)
termination_by bitCount data - pos

def ownCodes (data : ByteArray) (pos : Nat) :
    Except Stop (Code × Code × { next : Nat // pos < next }) := do
  let literalCount := 257 + (← number data 5 pos)
  let distanceCount := 1 + (← number data 5 (pos + 5))
  let lengthCount := 4 + (← number data 4 (pos + 10))
  if 286 < literalCount ∨ 30 < distanceCount then throw .corrupt
  let given ← (List.range lengthCount).mapM fun place => number data 3 (pos + 14 + 3 * place)
  let lengthOf (symbol : Nat) : Nat := (given[lengthOrder.idxOf symbol]?).getD 0
  let code := Code.ofLengths ((List.range 19).map lengthOf)
  if !code.isComplete then throw .corrupt
  let (lengths, next) ← codeLengths data code (literalCount + distanceCount) []
    (pos + 14 + 3 * lengthCount)
  let literals := Code.ofLengths (lengths.take literalCount)
  let distances := Code.ofLengths (lengths.drop literalCount)
  if !literals.isUsable ∨ !distances.isUsable then throw .corrupt
  return (literals, distances, ⟨next.1, by have := next.2; omega⟩)

def fixedLiteralLengths : List Nat :=
  List.replicate 144 8 ++ List.replicate 112 9 ++ List.replicate 24 7 ++ List.replicate 8 8

def fixedLiterals : Code := Code.ofLengths fixedLiteralLengths

def fixedDistances : Code := Code.ofLengths (List.replicate 32 5)

def block (data : ByteArray) (limit : Nat) (out : ByteArray) (pos : Nat) :
    Except Stop (ByteArray × Ahead data pos) := do
  match ← number data 2 pos with
  | 0 =>
      let (out, next) ← stored data limit out (pos + 2)
      return (out, ⟨next.1, by have := next.2; omega⟩)
  | 1 =>
      let (out, next) ← coded data limit fixedLiterals fixedDistances out (pos + 2)
      return (out, ⟨next.1, by have := next.2; omega⟩)
  | 2 =>
      let (literals, distances, start) ← ownCodes data (pos + 2)
      let (out, next) ← coded data limit literals distances out start.1
      return (out, ⟨next.1, by have := next.2; have := start.2; omega⟩)
  | _ => throw .corrupt

def blocks (data : ByteArray) (limit : Nat) (out : ByteArray) (pos : Nat) :
    Except Stop ByteArray := do
  let (last, start) ← bit data pos
  let (out, next) ← block data limit out start.1
  if last = 1 then return out
  have := start.2
  have := next.2
  blocks data limit out next.1
termination_by bitCount data - pos

def inflate (limit : Nat) (data : ByteArray) : Except Stop ByteArray :=
  blocks data limit ByteArray.empty 0

end Linkage.Deflate
