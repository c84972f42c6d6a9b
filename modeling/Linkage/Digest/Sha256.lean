import Linkage.Bytes.Hex

/-!
The SHA-256 digest.

The message is padded to whole blocks of sixteen words. Each block goes through sixty-four rounds; a
window over the last sixteen words of the message schedule moves along with them, so that no table
of the schedule is kept.
-/

namespace Linkage.Sha256

structure State where
  a : UInt32
  b : UInt32
  c : UInt32
  d : UInt32
  e : UInt32
  f : UInt32
  g : UInt32
  h : UInt32
  deriving DecidableEq, Repr

/-- The words before the first block: the fractions of the square roots of the first eight
primes. -/
def initial : State :=
  { a := 0x6a09e667, b := 0xbb67ae85, c := 0x3c6ef372, d := 0xa54ff53a,
    e := 0x510e527f, f := 0x9b05688c, g := 0x1f83d9ab, h := 0x5be0cd19 }

/-- A constant for each round: the fractions of the cube roots of the first sixty-four primes. -/
def roundConstants : List UInt32 := [
  0x428a2f98, 0x71374491, 0xb5c0fbcf, 0xe9b5dba5, 0x3956c25b, 0x59f111f1, 0x923f82a4, 0xab1c5ed5,
  0xd807aa98, 0x12835b01, 0x243185be, 0x550c7dc3, 0x72be5d74, 0x80deb1fe, 0x9bdc06a7, 0xc19bf174,
  0xe49b69c1, 0xefbe4786, 0x0fc19dc6, 0x240ca1cc, 0x2de92c6f, 0x4a7484aa, 0x5cb0a9dc, 0x76f988da,
  0x983e5152, 0xa831c66d, 0xb00327c8, 0xbf597fc7, 0xc6e00bf3, 0xd5a79147, 0x06ca6351, 0x14292967,
  0x27b70a85, 0x2e1b2138, 0x4d2c6dfc, 0x53380d13, 0x650a7354, 0x766a0abb, 0x81c2c92e, 0x92722c85,
  0xa2bfe8a1, 0xa81a664b, 0xc24b8b70, 0xc76c51a3, 0xd192e819, 0xd6990624, 0xf40e3585, 0x106aa070,
  0x19a4c116, 0x1e376c08, 0x2748774c, 0x34b0bcb5, 0x391c0cb3, 0x4ed8aa4a, 0x5b9cca4f, 0x682e6ff3,
  0x748f82ee, 0x78a5636f, 0x84c87814, 0x8cc70208, 0x90befffa, 0xa4506ceb, 0xbef9a3f7, 0xc67178f2]

def rotate (word count : UInt32) : UInt32 := word >>> count ||| word <<< (32 - count)

def round (state : State) (word constant : UInt32) : State :=
  let { a, b, c, d, e, f, g, h } := state
  let choice := (e &&& f) ^^^ (~~~e &&& g)
  let majority := (a &&& b) ^^^ (a &&& c) ^^^ (b &&& c)
  let low := h + (rotate e 6 ^^^ rotate e 11 ^^^ rotate e 25) + choice + constant + word
  let high := (rotate a 2 ^^^ rotate a 13 ^^^ rotate a 22) + majority
  { a := low + high, b := a, c := b, d := c, e := d + low, f := e, g := f, h := g }

def nextWord (window : List UInt32) : UInt32 :=
  let word (place : Nat) := window.getD place 0
  let early := rotate (word 1) 7 ^^^ rotate (word 1) 18 ^^^ (word 1 >>> 3)
  let late := rotate (word 14) 17 ^^^ rotate (word 14) 19 ^^^ (word 14 >>> 10)
  word 0 + early + word 9 + late

def rounds (state : State) (window : List UInt32) : List UInt32 → State
  | [] => state
  | constant :: constants =>
    rounds (round state (window.headD 0) constant) (window.tail ++ [nextWord window]) constants

def absorb (state : State) (block : List UInt32) : State :=
  let mixed := rounds state block roundConstants
  { a := state.a + mixed.a, b := state.b + mixed.b, c := state.c + mixed.c, d := state.d + mixed.d,
    e := state.e + mixed.e, f := state.f + mixed.f, g := state.g + mixed.g, h := state.h + mixed.h }

def words : List UInt8 → List UInt32
  | b₃ :: b₂ :: b₁ :: b₀ :: rest =>
      (b₃.toUInt32 <<< 24 ||| b₂.toUInt32 <<< 16 ||| b₁.toUInt32 <<< 8 ||| b₀.toUInt32)
        :: words rest
  | _ => []

/-- What follows a message of some length: a one bit, as many zero bits as it takes, and the length
in bits. -/
def padding (length : Nat) : List UInt8 :=
  let zeros := (119 - length % 64) % 64
  let bits := 8 * length
  0x80 :: (List.replicate zeros (0 : UInt8)
    ++ (List.range 8).map fun place => UInt8.ofNat (bits >>> (8 * (7 - place))))

def absorbAll (state : State) (blocks : List UInt32) : State :=
  match blocks with
  | [] => state
  | word :: rest => absorbAll (absorb state ((word :: rest).take 16)) (rest.drop 15)
termination_by blocks.length
decreasing_by simp only [List.length_drop, List.length_cons]; omega

def digest (message : List UInt8) : State :=
  absorbAll initial (words (message ++ padding message.length))

def ofText (text : String) : String :=
  let { a, b, c, d, e, f, g, h } := digest text.toUTF8.data.toList
  String.join ([a, b, c, d, e, f, g, h].map fun word => Hex.digits 8 word.toNat)

end Linkage.Sha256
