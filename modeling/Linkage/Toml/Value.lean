import Linkage.Toml.Scalar

/-!
Values of a TOML text: single ones, lists and tables.

A stack holds the lists and tables that are open, the innermost first. A list may go over several
lines, a table may not.
-/

namespace Linkage.Toml

/-- A key: one name, and the ones behind dots. -/
abbrev Key := String × List String

def Token.isBlanks : Token → Bool
  | blanks _ => true
  | _ => false

def pastBlanks (tokens : List Token) : List Token := tokens.dropWhile Token.isBlanks

def pastLines (tokens : List Token) : List Token :=
  tokens.dropWhile fun token => token.isBlanks || token = .newline

def Token.name? : Token → Option String
  | bare text => some (String.ofList text)
  | quoted text false => some text
  | _ => none

theorem pastBlanks_length (tokens : List Token) : (pastBlanks tokens).length ≤ tokens.length :=
  (List.dropWhile_sublist _).length_le

theorem pastLines_length (tokens : List Token) : (pastLines tokens).length ≤ tokens.length :=
  (List.dropWhile_sublist _).length_le

def key? (tokens : List Token) : Option (Key × List Token) :=
  match tokens with
  | [] => none
  | token :: rest =>
    match token.name?, after : pastBlanks rest with
    | none, _ => none
    | some name, .period :: more =>
      have := after ▸ pastBlanks_length rest
      have := pastBlanks_length more
      match key? (pastBlanks more) with
      | some ((next, names), rest) => some ((name, next :: names), rest)
      | none => none
    | some name, rest => some ((name, []), rest)
termination_by tokens.length
decreasing_by simp only [List.length_cons] at *; omega

def keyEquals? (tokens : List Token) : Option (Key × List Token) :=
  match key? tokens with
  | some (key, .equals :: rest) => some (key, pastBlanks rest)
  | _ => none

theorem key?_length {tokens rest : List Token} {key : Key}
    (found : key? tokens = some (key, rest)) :
    rest.length < tokens.length := by
  fun_induction key? tokens generalizing key with
  | case1 | case2 | case4 => cases found
  | case3 _ _ _ _ _ _ _ _ _ _ _ read ih =>
    cases found
    have := ih read
    simp only [List.length_cons] at *
    omega
  | case5 _ after _ _ _ =>
    cases found
    have := pastBlanks_length after
    simp only [List.length_cons]
    omega

theorem keyEquals?_length {tokens rest : List Token} {key : Key}
    (found : keyEquals? tokens = some (key, rest)) : rest.length < tokens.length := by
  unfold keyEquals? at found
  split at found
  · rename_i after read
    cases found
    have := key?_length read
    have := pastBlanks_length after
    simp only [List.length_cons] at *
    omega
  · cases found

def replaceFirst (name : String) (value : Data) : List (String × Data) → List (String × Data)
  | [] => []
  | field :: fields =>
    if field.1 = name then (name, value) :: fields else field :: replaceFirst name value fields

/-- Puts a value behind some fields, or into the table that a dotted key leads to. Only tables made
by dotted keys can be led into. -/
def addField? (fields : List (String × Data)) (name : String) (more : List String) (value : Data) :
    Option (List (String × Data)) :=
  match more with
  | [] => some (fields ++ [(name, value)])
  | next :: more =>
    match fields.lookup name with
    | some (.spread inner) =>
        (addField? inner next more value).map fun inner => replaceFirst name (.spread inner) fields
    | some _ => none
    | none => (addField? [] next more value).map fun inner => fields ++ [(name, .spread inner)]

inductive Open
  /-- The last item comes first. -/
  | list (before : List Data)
  /-- `key` is the key of the value that comes next. -/
  | table (fields : List (String × Data)) (key : Key)

mutual

/-- A value that opens some tokens, and what follows the outermost of the lists and tables around
it. -/
def valueIn? (around : List Open) (tokens : List Token) : Option (Data × List Token) :=
  match tokens with
  | .openBracket :: rest =>
    have := pastLines_length rest
    itemIn? around [] (pastLines rest)
  | .openBrace :: rest =>
    match opened : pastBlanks rest with
    | .closeBrace :: rest' =>
      have := opened ▸ pastBlanks_length rest
      after? around (.table []) rest'
    | tokens =>
      match found : keyEquals? tokens with
      | some (key, rest') =>
        have := opened ▸ pastBlanks_length rest
        have := keyEquals?_length found
        valueIn? (.table [] key :: around) rest'
      | none => none
  | tokens =>
    match found : scalar? tokens with
    | some (value, rest) =>
      have := scalar?_length found
      after? around value rest
    | none => none
termination_by 2 * tokens.length
decreasing_by all_goals grind

def itemIn? (around : List Open) (before : List Data) (tokens : List Token) :
    Option (Data × List Token) :=
  match tokens with
  | .closeBracket :: rest => after? around (.list before.reverse) rest
  | tokens => valueIn? (.list before :: around) tokens
termination_by 2 * tokens.length + 1
decreasing_by all_goals grind

def after? (around : List Open) (value : Data) (tokens : List Token) :
    Option (Data × List Token) :=
  match around with
  | [] => some (value, tokens)
  | .list before :: outer =>
    match next : pastLines tokens with
    | .closeBracket :: rest =>
      have := next ▸ pastLines_length tokens
      after? outer (.list (value :: before).reverse) rest
    | .comma :: rest =>
      have := next ▸ pastLines_length tokens
      have := pastLines_length rest
      itemIn? outer (value :: before) (pastLines rest)
    | _ => none
  | .table fields (name, more) :: outer =>
    match addField? fields name more value, next : pastBlanks tokens with
    | some fields, .closeBrace :: rest =>
      have := next ▸ pastBlanks_length tokens
      after? outer (.table fields) rest
    | some fields, .comma :: rest =>
      match found : keyEquals? (pastBlanks rest) with
      | some (key, rest') =>
        have := next ▸ pastBlanks_length tokens
        have := pastBlanks_length rest
        have := keyEquals?_length found
        valueIn? (.table fields key :: outer) rest'
      | none => none
    | _, _ => none
termination_by 2 * tokens.length
decreasing_by all_goals grind

end

theorem valueIn?_length {around : List Open} {tokens rest : List Token} {value : Data}
    (found : valueIn? around tokens = some (value, rest)) : rest.length ≤ tokens.length := by
  refine valueIn?.induct
    (fun around tokens => ∀ value rest,
      valueIn? around tokens = some (value, rest) → rest.length ≤ tokens.length)
    (fun around value tokens => ∀ result rest,
      after? around value tokens = some (result, rest) → rest.length ≤ tokens.length)
    (fun around before tokens => ∀ value rest,
      itemIn? around before tokens = some (value, rest) → rest.length ≤ tokens.length)
    ?_ ?_ ?_ ?_ ?_ ?_ ?_ ?_ ?_ ?_ ?_ ?_ ?_ ?_ ?_ ?_ around tokens value rest found
  all_goals
    simp_all only [valueIn?, itemIn?, after?]
    grind

def value? (tokens : List Token) : Option (Data × List Token) := valueIn? [] tokens

end Linkage.Toml
