import Linkage.Json.Token

/-!
Cutting a TOML text into tokens.

Line ends are single line feeds, which `foldLineEnds` sees to. A comment ends with its line and
gives no token. Blanks do give one, for they may not stand inside a number or between the brackets
of a header.
-/

namespace Linkage.Toml

inductive Token
  | newline
  | blanks (text : List Char)
  | equals
  | period
  | comma
  | colon
  | plus
  | openBrace
  | closeBrace
  | openBracket
  | closeBracket
  | bare (text : List Char)
  | quoted (text : String) (multiline : Bool)
  deriving DecidableEq, Repr

def foldLineEnds : List Char → List Char
  | '\r' :: '\n' :: rest => '\n' :: foldLineEnds rest
  | c :: rest => c :: foldLineEnds rest
  | [] => []

def isBlank (c : Char) : Bool := c = ' ' || c = '\t'

def isBare (c : Char) : Bool :=
  ('a' ≤ c && c ≤ 'z') || ('A' ≤ c && c ≤ 'Z') || ('0' ≤ c && c ≤ '9') || c = '-' || c = '_'

def isCommentChar (c : Char) : Bool := c = '\t' || 0x20 ≤ c.toNat

def isPlain (c : Char) : Bool := c = '\t' || (0x20 ≤ c.toNat && c ≠ '\x7f')

/-! ## Quoted texts -/

def shortEscape? : Char → Option Char
  | '"' => some '"'
  | '\\' => some '\\'
  | 'b' => some '\x08'
  | 'f' => some '\x0C'
  | 'n' => some '\n'
  | 'r' => some '\r'
  | 't' => some '\t'
  | _ => none

/-- The number that `count` hexadecimal digits stand for behind those that stand for `value`, and
what follows them. -/
def hexCode? (value : Nat) : (count : Nat) → List Char → Option (Nat × List Char)
  | 0, text => some (value, text)
  | count + 1, c :: rest =>
    match Json.hexValue? c with
    | some digit => hexCode? (value * 16 + digit) count rest
    | none => none
  | _ + 1, [] => none

def codedChar? (count : Nat) (text : List Char) : Option (List Char × List Char) :=
  match hexCode? 0 count text with
  | some (code, rest) => if code.isValidChar then some ([Char.ofNat code], rest) else none
  | none => none

/-- What an escape stands for, given the text behind its backslash, and what follows it. A backslash
at the end of a line joins it with the next line that is not blank. -/
def escaped? (multiline : Bool) : List Char → Option (List Char × List Char)
  | [] => none
  | c :: rest =>
    match shortEscape? c with
    | some c => some ([c], rest)
    | none =>
      if c = 'u' then codedChar? 4 rest
      else if c = 'U' then codedChar? 8 rest
      else if multiline then
        match (c :: rest).dropWhile isBlank with
        | '\n' :: rest => some ([], rest.dropWhile fun c => isBlank c || c = '\n')
        | _ => none
      else none

theorem hexCode?_length {value count code : Nat} {text rest : List Char}
    (found : hexCode? value count text = some (code, rest)) : rest.length ≤ text.length := by
  fun_induction hexCode? value count text with
  | case1 => cases found; exact Nat.le_refl _
  | case2 _ _ _ _ _ _ ih => have := ih found; simp only [List.length_cons]; omega
  | case3 | case4 => cases found

theorem codedChar?_length {count : Nat} {text piece rest : List Char}
    (found : codedChar? count text = some (piece, rest)) : rest.length ≤ text.length := by
  unfold codedChar? at found
  split at found
  · rename_i code
    split at found <;> cases found
    exact hexCode?_length code
  · cases found

theorem escaped?_length {multiline : Bool} {text piece rest : List Char}
    (found : escaped? multiline text = some (piece, rest)) : rest.length ≤ text.length := by
  unfold escaped? at found
  split at found
  · cases found
  · rename_i c after
    have longer : after.length ≤ (c :: after).length := by simp
    split at found
    · cases found
      exact longer
    · split at found
      · exact Nat.le_trans (codedChar?_length found) longer
      · split at found
        · exact Nat.le_trans (codedChar?_length found) longer
        · split at found
          · split at found
            · rename_i next lineEnd
              cases found
              have blanks := (List.dropWhile_sublist isBlank (l := c :: after)).length_le
              have lines := (List.dropWhile_sublist (fun c => isBlank c || c = '\n')
                (l := next)).length_le
              rw [lineEnd] at blanks
              simp only [List.length_cons] at blanks ⊢
              omega
            · cases found
          · cases found

/-- How many quotation marks a text opens with, at most five. -/
def marksAhead (mark : Char) (text : List Char) : Nat := ((text.take 5).takeWhile (· = mark)).length

/-- The rest of a quoted text up to its closing mark or, if it may have several lines, its three
closing marks, behind the characters before, of which the last comes first, and what follows the
marks. Up to two marks right before the three closing ones belong to the text. -/
def quotedRest? (mark : Char) (multiline : Bool) (before text : List Char) :
    Option (List Char × List Char) :=
  match text with
  | [] => none
  | c :: rest =>
    if c = mark then
      if !multiline then some (before.reverse, rest)
      else if marksAhead mark text < 3 then quotedRest? mark multiline (c :: before) rest
      else
        some (before.reverse ++ List.replicate (marksAhead mark text - 3) mark,
          rest.drop (marksAhead mark text - 1))
    else if c = '\\' ∧ mark = '"' then
      match found : escaped? multiline rest with
      | some (piece, after) =>
        have := escaped?_length found
        quotedRest? mark multiline (piece.reverse ++ before) after
      | none => none
    else if isPlain c ∨ (multiline ∧ c = '\n') then quotedRest? mark multiline (c :: before) rest
    else none
termination_by text.length

/-- A quoted text behind the first of its opening marks, and what follows it. A line feed right
behind three opening marks is not part of the text. -/
def quoted? (mark : Char) (text : List Char) : Option (Token × List Char) :=
  let token (multiline : Bool) (content : List Char × List Char) :=
    (Token.quoted (String.ofList content.1) multiline, content.2)
  match text with
  | first :: second :: rest =>
    if first = mark ∧ second = mark then
      match rest with
      | '\n' :: rest => (quotedRest? mark true [] rest).map (token true)
      | rest => (quotedRest? mark true [] rest).map (token true)
    else (quotedRest? mark false [] (first :: second :: rest)).map (token false)
  | text => (quotedRest? mark false [] text).map (token false)

theorem quotedRest?_length {mark : Char} {multiline : Bool} {before text content rest : List Char}
    (found : quotedRest? mark multiline before text = some (content, rest)) :
    rest.length ≤ text.length := by
  fun_induction quotedRest? mark multiline before text with
  | case1 | case6 | case8 => cases found
  | case2 => cases found; simp
  | case3 _ _ _ few ih =>
    rw [if_pos few] at found
    have := ih found
    simp only [List.length_cons]
    omega
  | case4 _ _ _ many =>
    rw [if_neg many] at found
    cases found
    simp only [List.length_drop, List.length_cons]
    omega
  | case5 _ _ _ _ _ _ _ _ shorter ih =>
    have := ih found
    simp only [List.length_cons]
    omega
  | case7 _ _ _ _ _ _ ih => have := ih found; simp only [List.length_cons]; omega

theorem quoted?_length {mark : Char} {text rest : List Char} {token : Token}
    (found : quoted? mark text = some (token, rest)) : rest.length ≤ text.length := by
  have inner {multiline : Bool} {text : List Char}
      (found : ((quotedRest? mark multiline [] text).map fun content : List Char × List Char =>
        (Token.quoted (String.ofList content.1) multiline, content.2)) = some (token, rest)) :
      rest.length ≤ text.length := by
    obtain ⟨⟨content, after⟩, read, same⟩ := Option.map_eq_some_iff.mp found
    cases same
    exact quotedRest?_length read
  unfold quoted? at found
  simp only at found
  split at found
  · split at found
    · split at found
      all_goals
        have := inner found
        simp only [List.length_cons] at *
        omega
    · exact inner found
  · exact inner found

/-! ## All tokens of a text -/

def Token.ofChar? : Char → Option Token
  | '\n' => some newline
  | '=' => some equals
  | '.' => some period
  | ',' => some comma
  | ':' => some colon
  | '+' => some plus
  | '\x7b' => some openBrace
  | '\x7d' => some closeBrace
  | '[' => some openBracket
  | ']' => some closeBracket
  | _ => none

def Token.read? (c : Char) (rest : List Char) : Option (Token × List Char) :=
  if isBlank c then some (blanks (c :: rest.takeWhile isBlank), rest.dropWhile isBlank)
  else if isBare c then some (bare (c :: rest.takeWhile isBare), rest.dropWhile isBare)
  else if c = '"' ∨ c = '\'' then quoted? c rest
  else (ofChar? c).map fun token => (token, rest)

theorem Token.read?_length {c : Char} {text rest : List Char} {token : Token}
    (found : Token.read? c text = some (token, rest)) : rest.length ≤ text.length := by
  unfold Token.read? at found
  split at found
  · cases found
    exact (List.dropWhile_sublist _).length_le
  · split at found
    · cases found
      exact (List.dropWhile_sublist _).length_le
    · split at found
      · exact quoted?_length found
      · obtain ⟨_, _, same⟩ := Option.map_eq_some_iff.mp found
        cases same
        exact Nat.le_refl _

def tokensFrom? (before : List Token) (text : List Char) : Option (List Token) :=
  match text with
  | [] => some before.reverse
  | c :: rest =>
    if c = '#' then
      have := (List.dropWhile_sublist isCommentChar (l := rest)).length_le
      tokensFrom? before (rest.dropWhile isCommentChar)
    else
      match found : Token.read? c rest with
      | some (token, after) =>
        have := Token.read?_length found
        tokensFrom? (token :: before) after
      | none => none
termination_by text.length
decreasing_by all_goals simp only [List.length_cons]; omega

/-- The tokens of a text. A byte-order mark before it is passed over. -/
def tokens? (text : List Char) : Option (List Token) :=
  match text with
  | '\uFEFF' :: rest => tokensFrom? [] (foldLineEnds rest)
  | text => tokensFrom? [] (foldLineEnds text)

end Linkage.Toml
