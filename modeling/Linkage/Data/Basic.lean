/-!
Structured data, the common ground of the formats that are read and written.

A value is what a document says, apart from how the format writes it. Numbers other than natural
ones, and texts that are not made of whole characters, have no value of their own here; they are
kept as the document writes them. The fields of a table are in the order of the document, and the
same name may come more than once.
-/

namespace Linkage

inductive Data
  | null
  | bool (value : Bool)
  | natural (value : Nat)
  /-- A number or text without a value here, as the document writes it. -/
  | literal (source : String)
  | text (value : String)
  | list (items : List Data)
  | table (fields : List (String × Data))
  /-- A table whose fields stand apart in the document. It can be a record, but not a choice. -/
  | spread (fields : List (String × Data))
  deriving BEq, Repr, Inhabited

namespace Data

def texts (items : List String) : Data := list (items.map text)

def fieldUnlessEmpty {α : Type} (name : String) (items : List α) (encode : List α → Data) :
    List (String × Data) :=
  if items.isEmpty then [] else [(name, encode items)]

end Data

end Linkage
