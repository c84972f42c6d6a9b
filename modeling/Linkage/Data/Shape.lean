import Linkage.Json.Reader

/-!
Reading records and choices out of structured data.

A record is a table with the record's fields, in any order and possibly among others, or a list of
their values in order, of which the last may be missing. A choice is written as its name, or as a
table with that name alone. A tagged record says in one of its fields which kind of record it is.
-/

namespace Linkage

inductive Origin
  | json
  /-- From a JSON value that was kept whole before it was looked at. -/
  | kept
  | toml
  deriving DecidableEq, Repr

namespace Data

def text? : Data → Option String
  | text value => some value
  | _ => none

def natural? : Data → Option Nat
  | natural value => some value
  | _ => none

def list? {α : Type} (item? : Data → Option α) : Data → Option (List α)
  | list items => items.mapM item?
  | _ => none

def record? (names : List String) : Data → Option (List (Option Data))
  | table fields | spread fields =>
    let known := fields.filter fun field => names.contains field.1
    if (known.map Prod.fst).Nodup then some (names.map (List.lookup · known)) else none
  | list items =>
    if items.length ≤ names.length then
      some (items.map some ++ List.replicate (names.length - items.length) none)
    else none
  | _ => none

def required? {α : Type} (shape? : Data → Option α) (field : Option Data) : Option α :=
  field.bind shape?

def orElse? {α : Type} (default : α) (shape? : Data → Option α) : Option Data → Option α
  | some value => shape? value
  | none => some default

def isUnit (origin : Origin) : Data → Bool
  | null => origin ≠ .toml
  | table [] => origin ≠ .json
  | _ => false

def choice? (origin : Origin) : Data → Option String
  | text name => some name
  | table [(name, value)] => if value.isUnit origin then some name else none
  | _ => none

/-- The tag that a value stands for, given the tags in order. Where the value was kept, a tag may be
given by its number. -/
def tag? (origin : Origin) (tags : List String) : Data → Option String
  | text name => if tags.contains name then some name else none
  | natural place => if origin = .kept then tags[place]? else none
  | _ => none

def tagged? (origin : Origin) (tagName : String) (tags : List String) :
    Data → Option (String × Data)
  | table fields | spread fields =>
    match fields.filter (·.1 = tagName) with
    | [(_, tag)] =>
        (tag? origin tags tag).map fun tag => (tag, table (fields.filter (·.1 ≠ tagName)))
    | _ => none
  | list (tag :: items) => (tag? origin tags tag).map fun tag => (tag, list items)
  | _ => none

/-- A value that is kept whole, with `depth` lists and tables around it. Only what JSON texts write
can be too deep or too large for that. -/
def kept? (origin : Origin) (depth : Nat) (data : Data) : Option Data :=
  if origin ≠ .json || data.isPlain (maxDepth - depth) then some data else none

end Data

def Origin.keep : Origin → Origin
  | json => kept
  | kept => kept
  | toml => toml

end Linkage
