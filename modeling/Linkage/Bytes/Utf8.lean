/-!
Reading text from bytes that may not be UTF-8.

Every maximal piece that no character starts with is replaced by one U+FFFD: a byte that cannot
start a character alone, or the longest beginning of a character that is then broken off.
-/

namespace Linkage.Utf8

def replacement : Char := '\uFFFD'

/-- A character of which some bytes have been read: how many are still owed, the range that the
next one must lie in, and the bits gathered so far. -/
structure Partial where
  owed : Nat
  low : UInt8
  high : UInt8
  bits : Nat
  deriving DecidableEq, Repr

def Partial.ofLead (b : UInt8) : Option Partial :=
  if 0xC2 ≤ b ∧ b ≤ 0xDF then some ⟨1, 0x80, 0xBF, b.toNat - 0xC0⟩
  else if b = 0xE0 then some ⟨2, 0xA0, 0xBF, 0⟩
  else if b = 0xED then some ⟨2, 0x80, 0x9F, 0xD⟩
  else if 0xE1 ≤ b ∧ b ≤ 0xEF then some ⟨2, 0x80, 0xBF, b.toNat - 0xE0⟩
  else if b = 0xF0 then some ⟨3, 0x90, 0xBF, 0⟩
  else if 0xF1 ≤ b ∧ b ≤ 0xF3 then some ⟨3, 0x80, 0xBF, b.toNat - 0xF0⟩
  else if b = 0xF4 then some ⟨3, 0x80, 0x8F, 4⟩
  else none

def fresh (done : List Char) (b : UInt8) : List Char × Option Partial :=
  if b < 0x80 then (Char.ofNat b.toNat :: done, none)
  else match Partial.ofLead b with
    | some started => (done, some started)
    | none => (replacement :: done, none)

/-- Takes one byte; `done` holds the characters so far, the last one first. -/
def step : List Char × Option Partial → UInt8 → List Char × Option Partial
  | (done, none), b => fresh done b
  | (done, some started), b =>
      if started.low ≤ b ∧ b ≤ started.high then
        let bits := started.bits * 64 + (b.toNat - 0x80)
        if started.owed = 1 then (Char.ofNat bits :: done, none)
        else (done, some ⟨started.owed - 1, 0x80, 0xBF, bits⟩)
      else fresh (replacement :: done) b

/-- The text of some bytes, with U+FFFD for what is not UTF-8. -/
def decodeLossy (bytes : List UInt8) : String :=
  let (done, unfinished) := bytes.foldl step ([], none)
  String.ofList ((if unfinished.isSome then replacement :: done else done).reverse)

end Linkage.Utf8
