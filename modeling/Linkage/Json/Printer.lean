import Linkage.Bytes.Hex
import Linkage.Data.Basic

/-!
Writing structured data as JSON, on one line or indented.

In a quoted text a quotation mark, a backslash and the control characters below the blank are
escaped, those with a short form by it. The indented form puts every item and field on a line of its
own, two blanks further in than the line that opens it; empty lists and tables stay on one line.
-/

namespace Linkage.Json

def escape (c : Char) : List Char :=
  match c with
  | '"' => ['\\', '"']
  | '\\' => ['\\', '\\']
  | '\x08' => ['\\', 'b']
  | '\t' => ['\\', 't']
  | '\n' => ['\\', 'n']
  | '\x0C' => ['\\', 'f']
  | '\r' => ['\\', 'r']
  | c => if c.toNat < 0x20 then '\\' :: 'u' :: (Hex.digits 4 c.toNat).toList else [c]

def quote (text : String) : List Char := '"' :: (text.toList.flatMap escape ++ ['"'])

/-- How items and fields are set apart: nothing but commas, or lines indented to some depth. -/
inductive Layout
  | compact
  | indented (depth : Nat)
  deriving DecidableEq, Repr

namespace Layout

def deeper : Layout → Layout
  | compact => compact
  | indented depth => indented (depth + 1)

def lineBreak : Layout → List Char
  | compact => []
  | indented depth => '\n' :: List.replicate (2 * depth) ' '

def colon : Layout → List Char
  | compact => [':']
  | indented _ => [':', ' ']

end Layout

mutual

def chars (layout : Layout) : Data → List Char
  | .null => "null".toList
  | .bool value => (toString value).toList
  | .natural value => (toString value).toList
  | .literal source => source.toList
  | .text value => quote value
  | .list [] => ['[', ']']
  | .list (item :: items) =>
      '[' :: (layout.deeper.lineBreak ++ chars layout.deeper item
        ++ moreItems layout.deeper items ++ layout.lineBreak ++ [']'])
  | .table [] | .spread [] => ['\x7b', '\x7d']
  | .table (field :: fields) | .spread (field :: fields) =>
      '\x7b' :: (layout.deeper.lineBreak ++ fieldChars layout.deeper field
        ++ moreFields layout.deeper fields ++ layout.lineBreak ++ ['\x7d'])
termination_by structural data => data

def moreItems (layout : Layout) : List Data → List Char
  | [] => []
  | item :: items => ',' :: (layout.lineBreak ++ chars layout item ++ moreItems layout items)
termination_by structural items => items

def moreFields (layout : Layout) : List (String × Data) → List Char
  | [] => []
  | field :: fields =>
      ',' :: (layout.lineBreak ++ fieldChars layout field ++ moreFields layout fields)
termination_by structural fields => fields

def fieldChars (layout : Layout) : String × Data → List Char
  | (name, value) => quote name ++ layout.colon ++ chars layout value
termination_by structural field => field

end

def compact (data : Data) : String := String.ofList (chars .compact data)

def pretty (data : Data) : String := String.ofList (chars (.indented 0) data)

end Linkage.Json
