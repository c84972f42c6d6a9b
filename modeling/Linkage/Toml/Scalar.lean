import Linkage.Json.Reader
import Linkage.Text.Parts
import Linkage.Toml.Token

/-!
Single values of a TOML text: words, numbers, dates and quoted texts.

A number may have an underscore between any two digits. Integers have 64 bits with a sign. Numbers
that are not natural are kept as they are written. Dates and times are passed over: nothing asks for
one, so they are tables with a nameless field.
-/

namespace Linkage.Toml

/-- Digits between which single underscores may stand, to some base. They open a text, and what
follows them follows. Unless `zeros` is set, only zero itself may begin with a zero. -/
def digits? (base : Nat) (zeros : Bool) (text : List Char) : Option (List Char × List Char) :=
  let isDigit (c : Char) := (Json.hexValue? c).any (· < base)
  let run := text.takeWhile fun c => isDigit c || c = '_'
  let groups := Text.partsAt '_' run
  if groups.contains [] then none
  else if !zeros ∧ groups.flatten.head? = some '0' ∧ groups.flatten ≠ ['0'] then none
  else some (groups.flatten, text.drop run.length)

def signedDigits? (zeros : Bool) (text : List Char) : Option (List Char × List Char) :=
  let (sign, unsigned) := Json.minus text
  (digits? 10 zeros unsigned).map fun (digits, rest) => (sign ++ digits, rest)

def valueOf (base : Nat) (digits : List Char) : Nat :=
  digits.foldl (fun value c => value * base + (Json.hexValue? c).getD 0) 0

/-- The first magnitude that 64 bits with a sign do not hold; its negative they do. -/
def integerBound : Nat := 1 <<< 63

def integer? (negative : Bool) (magnitude : Nat) : Option Data :=
  if magnitude = 0 then some (.natural 0)
  else if negative then if magnitude ≤ integerBound then some (.literal s!"-{magnitude}") else none
  else if magnitude < integerBound then some (.natural magnitude) else none

def unsigned? (base : Nat) (text : List Char) : Option Data :=
  match digits? base true text with
  | some (digits, []) => integer? false (valueOf base digits)
  | _ => none

def decimal? (text : List Char) : Option Data :=
  match signedDigits? false text with
  | some ('-' :: digits, []) => integer? true (valueOf 10 digits)
  | some (digits, []) => integer? false (valueOf 10 digits)
  | _ => none

def float? (whole fraction exponent : List Char) : Option Data :=
  let part (mark : Char) (digits : List Char) := if digits.isEmpty then [] else mark :: digits
  let source := whole ++ part '.' fraction ++ part 'E' exponent
  if Data.isFiniteLiteral source then some (.literal (String.ofList source)) else none

/-- A floating-point number from its whole part, its fraction and what follows the two: an exponent
or nothing. An exponent with a plus sign goes on in the next tokens. -/
def floatFrom? (whole fraction rest : List Char) (tokens : List Token) :
    Option (Data × List Token) :=
  let exponent? : Option (List Char × List Char × List Token) :=
    match rest, tokens with
    | [], tokens => some ([], [], tokens)
    | [_], .plus :: .bare digits :: tokens =>
        (digits? 10 true digits).map fun (digits, rest) => (digits, rest, tokens)
    | [_], _ => none
    | _ :: digits, tokens =>
        (signedDigits? true digits).map fun (digits, rest) => (digits, rest, tokens)
  match exponent? with
  | some (exponent, [], tokens) =>
    if rest.head?.all fun c => c = 'e' || c = 'E' then
      (float? whole fraction exponent).map fun value => (value, tokens)
    else none
  | _ => none

def number? (text : List Char) (tokens : List Token) : Option (Data × List Token) :=
  let integer (value : Option Data) := value.map fun value => (value, tokens)
  match text with
  | '0' :: 'x' :: digits => integer (unsigned? 16 digits)
  | '0' :: 'o' :: digits => integer (unsigned? 8 digits)
  | '0' :: 'b' :: digits => integer (unsigned? 2 digits)
  | text =>
    if text.contains 'e' || text.contains 'E' then
      match signedDigits? false text with
      | some (whole, rest) => floatFrom? whole [] rest tokens
      | none => none
    else
      match tokens with
      | .period :: .bare after :: tokens =>
        match signedDigits? false text, digits? 10 true after with
        | some (whole, []), some (fraction, rest) => floatFrom? whole fraction rest tokens
        | _, _ => none
      | .period :: _ => none
      | tokens =>
        if ["inf".toList, "-inf".toList, "nan".toList, "-nan".toList].contains text then
          some (.literal (String.ofList text), tokens)
        else integer (decimal? text)

/-! ## Dates and times -/

def opensDate (text : List Char) : Bool :=
  text.contains 'T' || text.contains 't'
    || (text.tail.contains '-' && !Text.occursIn ['e', '-'] text && !Text.occursIn ['E', '-'] text)

def partBehind? (mark : Token) (tokens : List Token) : Option (List Token) :=
  match tokens with
  | [] => some []
  | token :: rest =>
    if token = mark then
      match rest with
      | .bare _ :: rest => some rest
      | _ => none
    else some (token :: rest)

def clock? (tokens : List Token) : Option (List Token) :=
  match tokens with
  | .bare _ :: .colon :: .bare _ :: rest =>
    (partBehind? .period rest).bind fun rest =>
      (partBehind? .plus rest).bind (partBehind? .colon)
  | _ => none

/-- Passes over what follows the first token of a date or time; `colon` says whether a colon has
been passed over already. A single blank may stand between date and time. -/
def moment? (colon : Bool) (tokens : List Token) : Option (List Token) :=
  let tokens := match tokens with
    | .blanks [' '] :: .bare _ :: rest => rest
    | tokens => tokens
  match colon, tokens with
  | true, tokens => clock? tokens
  | false, .colon :: rest => clock? rest
  | false, tokens => some tokens

def momentData : Data := .table [("", .null)]

def numberOrMoment? (text : List Char) (tokens : List Token) : Option (Data × List Token) :=
  let moment (rest : Option (List Token)) := rest.map fun rest => (momentData, rest)
  if opensDate text then moment (moment? false tokens)
  else
    match tokens with
    | .colon :: rest => moment (moment? true rest)
    | tokens => number? text tokens

def scalar? (tokens : List Token) : Option (Data × List Token) :=
  match tokens with
  | .quoted text _ :: rest => some (.text text, rest)
  | .plus :: .bare text :: rest => number? text rest
  | .bare text :: rest =>
    if text = "true".toList then some (.bool true, rest)
    else if text = "false".toList then some (.bool false, rest)
    else if text = "inf".toList ∨ text = "nan".toList then numberOrMoment? text rest
    else if text.head?.any fun c => c = '-' || c.isDigit then numberOrMoment? text rest
    else none
  | _ => none

/-! ## Every single value takes up some tokens -/

theorem floatFrom?_length {whole fraction after : List Char} {tokens rest : List Token}
    {value : Data} (found : floatFrom? whole fraction after tokens = some (value, rest)) :
    rest.length ≤ tokens.length := by
  unfold floatFrom? at found
  simp only at found
  split at found
  · rename_i exponent left read
    have : left.length ≤ tokens.length := by
      split at read
      · cases read
        exact Nat.le_refl _
      · obtain ⟨⟨digits, left⟩, _, same⟩ := Option.map_eq_some_iff.mp read
        cases same
        simp only [List.length_cons]
        omega
      · cases read
      · obtain ⟨⟨digits, left⟩, _, same⟩ := Option.map_eq_some_iff.mp read
        cases same
        exact Nat.le_refl _
    split at found
    · obtain ⟨_, _, same⟩ := Option.map_eq_some_iff.mp found
      cases same
      exact this
    · cases found
  · cases found

theorem number?_length {text : List Char} {tokens rest : List Token} {value : Data}
    (found : number? text tokens = some (value, rest)) : rest.length ≤ tokens.length := by
  have whole {read : Option Data}
      (found : (read.map fun value => (value, tokens)) = some (value, rest)) :
      rest.length ≤ tokens.length := by
    obtain ⟨_, _, same⟩ := Option.map_eq_some_iff.mp found
    cases same
    exact Nat.le_refl _
  unfold number? at found
  simp only at found
  split at found
  · exact whole found
  · exact whole found
  · exact whole found
  · split at found
    · split at found
      · exact floatFrom?_length found
      · cases found
    · split at found
      · split at found
        · have := floatFrom?_length found
          simp only [List.length_cons]
          omega
        · cases found
      · cases found
      · split at found
        · cases found
          exact Nat.le_refl _
        · exact whole found

theorem partBehind?_length {mark : Token} {tokens rest : List Token}
    (found : partBehind? mark tokens = some rest) : rest.length ≤ tokens.length := by
  unfold partBehind? at found
  split at found
  · cases found
    exact Nat.le_refl _
  · split at found
    · split at found
      · cases found
        simp only [List.length_cons]
        omega
      · cases found
    · cases found
      exact Nat.le_refl _

theorem clock?_length {tokens rest : List Token} (found : clock? tokens = some rest) :
    rest.length ≤ tokens.length := by
  unfold clock? at found
  split at found
  · obtain ⟨afterFraction, fraction, found⟩ := Option.bind_eq_some_iff.mp found
    obtain ⟨afterPlus, plus, found⟩ := Option.bind_eq_some_iff.mp found
    have := partBehind?_length fraction
    have := partBehind?_length plus
    have := partBehind?_length found
    simp only [List.length_cons]
    omega
  · cases found

theorem moment?_length {colon : Bool} {tokens rest : List Token}
    (found : moment? colon tokens = some rest) : rest.length ≤ tokens.length := by
  unfold moment? at found
  simp only at found
  generalize passed : (match tokens with
    | .blanks [' '] :: .bare _ :: rest => rest
    | tokens => tokens) = left at found
  have : left.length ≤ tokens.length := by
    split at passed <;> subst passed
    · simp only [List.length_cons]
      omega
    · exact Nat.le_refl _
  split at found
  · have := clock?_length found
    omega
  · have := clock?_length found
    simp only [List.length_cons] at *
    omega
  · cases found
    exact this

theorem numberOrMoment?_length {text : List Char} {tokens rest : List Token}
    {value : Data} (found : numberOrMoment? text tokens = some (value, rest)) :
    rest.length ≤ tokens.length := by
  unfold numberOrMoment? at found
  simp only at found
  split at found
  · obtain ⟨_, passed, same⟩ := Option.map_eq_some_iff.mp found
    cases same
    exact moment?_length passed
  · split at found
    · obtain ⟨_, passed, same⟩ := Option.map_eq_some_iff.mp found
      cases same
      have := moment?_length passed
      simp only [List.length_cons]
      omega
    · exact number?_length found

theorem scalar?_length {tokens rest : List Token} {value : Data}
    (found : scalar? tokens = some (value, rest)) : rest.length < tokens.length := by
  unfold scalar? at found
  split at found
  · cases found
    simp
  · have := number?_length found
    simp only [List.length_cons]
    omega
  · split at found
    · cases found; simp
    · split at found
      · cases found; simp
      · split at found
        · have := numberOrMoment?_length found
          simp only [List.length_cons]
          omega
        · split at found
          · have := numberOrMoment?_length found
            simp only [List.length_cons]
            omega
          · cases found
  · cases found

end Linkage.Toml
