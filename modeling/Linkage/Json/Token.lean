import Linkage.Data.Basic

/-!
Cutting a JSON text into tokens: brackets, commas, colons and single values.

A number that is no natural number below 2^64 keeps the text it was written as, and so does a quoted
text with half of a surrogate pair, which stands for no characters.
-/

namespace Linkage.Json

inductive Token
  | openList
  | closeList
  | openTable
  | closeTable
  | comma
  | colon
  | scalar (value : Data)

def isSpace (c : Char) : Bool := c = ' ' || c = '\t' || c = '\n' || c = '\r'

/-! ## Quoted texts -/

def hexValue? (c : Char) : Option Nat :=
  if c.isDigit then some (c.toNat - '0'.toNat)
  else if 'a' ≤ c ∧ c ≤ 'f' then some (c.toNat - 'a'.toNat + 10)
  else if 'A' ≤ c ∧ c ≤ 'F' then some (c.toNat - 'A'.toNat + 10)
  else none

def hexValue4? (a b c d : Char) : Option Nat := do
  return (((← hexValue? a) * 16 + (← hexValue? b)) * 16 + (← hexValue? c)) * 16 + (← hexValue? d)

def shortEscape? : Char → Option Char
  | '"' => some '"'
  | '\\' => some '\\'
  | '/' => some '/'
  | 'b' => some '\x08'
  | 'f' => some '\x0C'
  | 'n' => some '\n'
  | 'r' => some '\r'
  | 't' => some '\t'
  | _ => none

inductive Unit16
  | whole (c : Char)
  | half (code : Nat)
  deriving DecidableEq, Repr

def Unit16.ofCode (code : Nat) : Unit16 :=
  if 0xD800 ≤ code ∧ code < 0xE000 then .half code else .whole (Char.ofNat code)

/-- The pieces of a quoted text up to the closing quotation mark, behind those before, of which the
last comes first, and what follows the mark. -/
def quotedUnits? (before : List Unit16) : List Char → Option (List Unit16 × List Char)
  | '"' :: rest => some (before.reverse, rest)
  | '\\' :: 'u' :: a :: b :: c :: d :: rest =>
    match hexValue4? a b c d with
    | some code => quotedUnits? (.ofCode code :: before) rest
    | none => none
  | '\\' :: c :: rest =>
    match shortEscape? c with
    | some c => quotedUnits? (.whole c :: before) rest
    | none => none
  | c :: rest => if c.toNat < 0x20 then none else quotedUnits? (.whole c :: before) rest
  | [] => none

def joinUnits? (before : List Char) : List Unit16 → Option (List Char)
  | [] => some before.reverse
  | .whole c :: rest => joinUnits? (c :: before) rest
  | .half high :: .half low :: rest =>
    if high < 0xDC00 ∧ 0xDC00 ≤ low then
      joinUnits? (Char.ofNat (0x10000 + (high - 0xD800) * 0x400 + (low - 0xDC00)) :: before) rest
    else none
  | .half _ :: _ => none

def quoted? (text : List Char) : Option (Data × List Char) :=
  match quotedUnits? [] text with
  | none => none
  | some (units, rest) =>
    match joinUnits? [] units with
    | some chars => some (.text (String.ofList chars), rest)
    | none =>
      some (.literal (String.ofList ('"' :: text.take (text.length - rest.length))), rest)

def digits? (text : List Char) : Option (List Char × List Char) :=
  match text.takeWhile Char.isDigit with
  | [] => none
  | digits => some (digits, text.dropWhile Char.isDigit)

/-- The whole part of a number, which does not begin with a zero unless it is one. -/
def wholePart? (text : List Char) : Option (List Char × List Char) :=
  match text with
  | '0' :: rest =>
    match rest with
    | c :: _ => if c.isDigit then none else some (['0'], rest)
    | [] => some (['0'], [])
  | text => digits? text

def fraction? (text : List Char) : Option (List Char × List Char) :=
  match text with
  | '.' :: rest => (digits? rest).map fun (digits, rest) => ('.' :: digits, rest)
  | text => some ([], text)

def exponent? (text : List Char) : Option (List Char × List Char) :=
  match text with
  | e :: rest =>
    if e = 'e' ∨ e = 'E' then
      match rest with
      | sign :: more =>
        if sign = '+' ∨ sign = '-' then
          (digits? more).map fun (digits, rest) => (e :: sign :: digits, rest)
        else (digits? rest).map fun (digits, rest) => (e :: digits, rest)
      | [] => none
    else some ([], text)
  | [] => some ([], [])

def ofDigits (digits : List Char) : Nat :=
  digits.foldl (fun value c => value * 10 + (c.toNat - '0'.toNat)) 0

def minus : List Char → List Char × List Char
  | '-' :: rest => (['-'], rest)
  | text => ([], text)

def number? (text : List Char) : Option (Data × List Char) := do
  let (sign, unsigned) := minus text
  let (whole, rest) ← wholePart? unsigned
  let (fraction, rest) ← fraction? rest
  let (exponent, rest) ← exponent? rest
  if sign = [] ∧ fraction = [] ∧ exponent = [] ∧ ofDigits whole < UInt64.size then
    return (.natural (ofDigits whole), rest)
  return (.literal (String.ofList (sign ++ whole ++ fraction ++ exponent)), rest)

def word? (text : List Char) : Option (Data × List Char) :=
  match text with
  | 'n' :: 'u' :: 'l' :: 'l' :: rest => some (.null, rest)
  | 't' :: 'r' :: 'u' :: 'e' :: rest => some (.bool true, rest)
  | 'f' :: 'a' :: 'l' :: 's' :: 'e' :: rest => some (.bool false, rest)
  | _ => none

def scalar? (text : List Char) : Option (Data × List Char) :=
  match text with
  | '"' :: rest => quoted? rest
  | text => (word? text).or (number? text)

def Token.ofChar? : Char → Option Token
  | '[' => some openList
  | ']' => some closeList
  | '\x7b' => some openTable
  | '\x7d' => some closeTable
  | ',' => some comma
  | ':' => some colon
  | _ => none

/-! ## Every token takes up some text -/

theorem quotedUnits?_length {before units : List Unit16} {text rest : List Char}
    (found : quotedUnits? before text = some (units, rest)) : rest.length < text.length := by
  fun_induction quotedUnits? before text with
  | case1 => cases found; simp
  | case2 _ _ _ _ _ _ _ _ ih => have := ih found; simp only [List.length_cons]; omega
  | case4 _ _ _ _ _ _ ih => have := ih found; simp only [List.length_cons]; omega
  | case7 _ _ _ _ _ _ _ ih => have := ih found; simp only [List.length_cons]; omega
  | case3 | case5 | case6 | case8 => cases found

theorem quoted?_length {text rest : List Char} {value : Data}
    (found : quoted? text = some (value, rest)) : rest.length < text.length := by
  unfold quoted? at found
  split at found
  · cases found
  · rename_i units
    have := quotedUnits?_length units
    split at found <;> cases found <;> exact this

theorem digits?_length {digits text rest : List Char} (found : digits? text = some (digits, rest)) :
    rest.length < text.length := by
  unfold digits? at found
  split at found
  · cases found
  · rename_i taken
    cases found
    have whole := List.takeWhile_append_dropWhile (p := Char.isDigit) (l := text)
    have := congrArg List.length whole
    have := List.length_pos_iff.mpr taken
    simp only [List.length_append] at *
    omega

theorem wholePart?_length {digits text rest : List Char}
    (found : wholePart? text = some (digits, rest)) : rest.length < text.length := by
  unfold wholePart? at found
  split at found
  · split at found
    · split at found <;> cases found
      simp
    · cases found
      simp
  · exact digits?_length found

theorem fraction?_length {digits text rest : List Char}
    (found : fraction? text = some (digits, rest)) : rest.length ≤ text.length := by
  unfold fraction? at found
  split at found
  · obtain ⟨⟨more, after⟩, read, same⟩ := Option.map_eq_some_iff.mp found
    cases same
    have := digits?_length read
    simp only [List.length_cons]
    omega
  · cases found
    exact Nat.le_refl _

theorem exponent?_length {digits text rest : List Char}
    (found : exponent? text = some (digits, rest)) : rest.length ≤ text.length := by
  unfold exponent? at found
  split at found
  · split at found
    · split at found
      · split at found
        all_goals
          obtain ⟨⟨more, after⟩, read, same⟩ := Option.map_eq_some_iff.mp found
          cases same
          have := digits?_length read
          simp only [List.length_cons] at *
          omega
      · cases found
    · cases found
      exact Nat.le_refl _
  · cases found
    exact Nat.le_refl _

theorem number?_length {text rest : List Char} {value : Data}
    (found : number? text = some (value, rest)) : rest.length < text.length := by
  have signed : (minus text).2.length ≤ text.length := by
    unfold minus
    split <;> simp
  unfold number? at found
  generalize minus text = parts at found signed
  obtain ⟨sign, unsigned⟩ := parts
  simp only [Option.bind_eq_bind, Option.bind_eq_some_iff] at found
  obtain ⟨⟨whole, afterWhole⟩, readWhole, ⟨fraction, afterFraction⟩, readFraction,
    ⟨exponent, afterExponent⟩, readExponent, found⟩ := found
  have := wholePart?_length readWhole
  have := fraction?_length readFraction
  have := exponent?_length readExponent
  have same : afterExponent = rest := by
    simp only at found
    split at found <;> cases found <;> rfl
  subst same
  simp only at *
  omega

theorem word?_length {text rest : List Char} {value : Data}
    (found : word? text = some (value, rest)) : rest.length < text.length := by
  unfold word? at found
  split at found <;> cases found
  all_goals
    simp only [List.length_cons]
    omega

theorem scalar?_length {text rest : List Char} {value : Data}
    (found : scalar? text = some (value, rest)) : rest.length < text.length := by
  unfold scalar? at found
  split at found
  · have := quoted?_length found
    simp only [List.length_cons]
    omega
  · rcases Option.or_eq_some_iff.mp found with word | ⟨_, number⟩
    · exact word?_length word
    · exact number?_length number

/-! ## All tokens of a text -/

def tokensFrom? (before : List Token) (text : List Char) : Option (List Token) :=
  match text with
  | [] => some before.reverse
  | c :: rest =>
    if isSpace c then tokensFrom? before rest
    else
      match Token.ofChar? c with
      | some token => tokensFrom? (token :: before) rest
      | none =>
        match found : scalar? (c :: rest) with
        | some (value, after) =>
          have := scalar?_length found
          tokensFrom? (.scalar value :: before) after
        | none => none
termination_by text.length
decreasing_by all_goals simp only [List.length_cons] at *; omega

def tokens? (text : List Char) : Option (List Token) := tokensFrom? [] text

end Linkage.Json
