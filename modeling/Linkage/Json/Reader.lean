import Linkage.Json.Token

/-!
Reading JSON.

The tokens of a text are taken one by one. A stack holds the lists and tables that are open, the
innermost first, so that no nesting is too deep to be read. What a document may nest and how large
its numbers may be is asked of the value afterwards, by `Data.isPlain`.
-/

namespace Linkage.Json

inductive Open
  | list (before : List Data)
  /-- If a name in a table stands for no text, neither does the table, and the name is kept. -/
  | table (before : List (String × Data)) (broken : Option String)

inductive Awaiting
  | value
  | firstItem
  | name
  | firstName
  | colon
  | separator
  | nothing
  deriving DecidableEq, Repr

/-- Where a reading stands. `names` holds the names of the fields whose values are open, the
innermost first, and `result` the value of the whole text once it is read. -/
structure Reading where
  awaiting : Awaiting
  stack : List Open
  names : List String
  result : Data

namespace Reading

def start : Reading := ⟨.value, [], [], .null⟩

def complete (reading : Reading) (stack : List Open) (value : Data) : Option Reading :=
  match stack, reading.names with
  | [], names => some ⟨.nothing, [], names, value⟩
  | .list before :: outer, names =>
      some ⟨.separator, .list (value :: before) :: outer, names, .null⟩
  | .table before broken :: outer, name :: names =>
      some ⟨.separator, .table ((name, value) :: before) broken :: outer, names, .null⟩
  | .table .. :: _, [] => none

def endList (reading : Reading) : Option Reading :=
  match reading.stack with
  | .list before :: outer => reading.complete outer (.list before.reverse)
  | _ => none

def endTable (reading : Reading) : Option Reading :=
  match reading.stack with
  | .table before none :: outer => reading.complete outer (.table before.reverse)
  | .table _ (some name) :: outer => reading.complete outer (.literal name)
  | _ => none

def takeValue (reading : Reading) : Token → Option Reading
  | .scalar value => reading.complete reading.stack value
  | .openList => some { reading with awaiting := .firstItem, stack := .list [] :: reading.stack }
  | .openTable =>
      some { reading with awaiting := .firstName, stack := .table [] none :: reading.stack }
  | _ => none

def takeName (reading : Reading) : Token → Option Reading
  | .scalar (.text name) => some { reading with awaiting := .colon, names := name :: reading.names }
  | .scalar (.literal source) =>
    match source.startsWith "\"", reading.stack with
    | true, .table before _ :: outer =>
        some { reading with
          awaiting := .colon, stack := .table before (some source) :: outer,
          names := source :: reading.names }
    | _, _ => none
  | _ => none

def step (reading : Reading) (token : Token) : Option Reading :=
  match reading.awaiting, token with
  | .value, token => reading.takeValue token
  | .firstItem, .closeList => reading.endList
  | .firstItem, token => reading.takeValue token
  | .name, token => reading.takeName token
  | .firstName, .closeTable => reading.endTable
  | .firstName, token => reading.takeName token
  | .colon, .colon => some { reading with awaiting := .value }
  | .separator, .comma =>
    match reading.stack with
    | .list _ :: _ => some { reading with awaiting := .value }
    | .table .. :: _ => some { reading with awaiting := .name }
    | [] => none
  | .separator, .closeList => reading.endList
  | .separator, .closeTable => reading.endTable
  | _, _ => none

def run (reading : Reading) : List Token → Option Reading
  | [] => some reading
  | token :: tokens =>
    match reading.step token with
    | some next => next.run tokens
    | none => none

end Reading

def read? (text : String) : Option Data := do
  let tokens ← tokens? text.toList
  let reading ← Reading.start.run tokens
  if reading.awaiting = .nothing then some reading.result else none

end Linkage.Json

namespace Linkage.Data

/-! ## Values that can be kept -/

def maxDepth : Nat := 127

/-- The least number that is beyond every 64-bit floating-point number. -/
def beyondFloats : Nat := (1 <<< 1024) - (1 <<< 970)

/-- Whether a number `digits * 10 ^ (exponent - places)` is a 64-bit floating-point number. Numbers
with very many or very few digits are told apart by their length. -/
def isFinite (digits exponent places : Nat) : Bool :=
  let length := (Nat.toDigits 10 digits).length
  if digits = 0 then true
  else if places + 310 < length + exponent then false
  else if length + exponent < places + 300 then true
  else digits * Nat.pow 10 exponent < beyondFloats * Nat.pow 10 places

def isFiniteLiteral (source : List Char) : Bool :=
  let (_, unsigned) := Json.minus source
  let mantissa := unsigned.takeWhile fun c => c ≠ 'e' && c ≠ 'E'
  let exponent := (unsigned.dropWhile fun c => c ≠ 'e' && c ≠ 'E').drop 1
  let fraction := (mantissa.dropWhile (· ≠ '.')).drop 1
  let digits := Json.ofDigits (mantissa.filter Char.isDigit)
  match exponent with
  | '-' :: exponent => isFinite digits 0 (fraction.length + Json.ofDigits exponent)
  | exponent => isFinite digits (Json.ofDigits (exponent.filter Char.isDigit)) fraction.length

mutual

/-- Whether a value can be kept: every text and number in it stands for something, and no more than
`depth` lists and tables are nested. -/
def isPlain (depth : Nat) : Data → Bool
  | .literal source => !source.startsWith "\"" && isFiniteLiteral source.toList
  | .list items => depth ≠ 0 && arePlain (depth - 1) items
  | .table fields | .spread fields => depth ≠ 0 && fieldsArePlain (depth - 1) fields
  | _ => true
termination_by structural data => data

def arePlain (depth : Nat) : List Data → Bool
  | [] => true
  | item :: items => isPlain depth item && arePlain depth items
termination_by structural items => items

def fieldsArePlain (depth : Nat) : List (String × Data) → Bool
  | [] => true
  | field :: fields => fieldIsPlain depth field && fieldsArePlain depth fields
termination_by structural fields => fields

def fieldIsPlain (depth : Nat) : String × Data → Bool
  | (_, value) => isPlain depth value
termination_by structural field => field

end

end Linkage.Data
