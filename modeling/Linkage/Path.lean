import Linkage.Text.Parts

/-!
Paths of files, kept as they were written.

Two paths written differently are different paths even if they lead to the same file, and a message
shows a path as it was written. Paths are compared part by part, so that what lies in a directory
comes right after it.
-/

namespace Linkage

structure Path where
  text : String
  deriving DecidableEq, Repr, Inhabited

namespace Path

/-- A part of a path. The constructors are in ascending order. -/
inductive Part
  /-- The slash that an absolute path begins with. -/
  | root
  /-- A dot at the beginning of a path. -/
  | here
  | up
  | name (name : String)
  deriving DecidableEq, Repr

def isAbsolute (path : Path) : Bool := path.text.startsWith "/"

/-- A path continued by another, which replaces it if it is absolute. -/
def join (base next : Path) : Path :=
  if next.isAbsolute || base.text.isEmpty then next
  else if base.text.endsWith "/" then ⟨base.text ++ next.text⟩
  else ⟨base.text ++ "/" ++ next.text⟩

def pieces (path : Path) : List (List Char) := Text.partsAt '/' path.text.toList

/-- Whether a piece behind a slash leads nowhere. -/
def isIdle (piece : List Char) : Bool := piece = [] || piece = ['.']

/-- The parts of a path. Repeated slashes count as one, and a dot is a part only at the
beginning. -/
def parts (path : Path) : List Part :=
  let front : List Part :=
    if path.isAbsolute then [.root]
    else if path.pieces.head? = some ['.'] then [.here]
    else []
  front ++ path.pieces.filterMap fun piece =>
    if isIdle piece then none
    else if piece = ['.', '.'] then some .up
    else some (.name (String.ofList piece))

/-- Whether a path stands for standard input, below which no file is looked for. -/
def isStandardInput (path : Path) : Bool := path.parts = [.name "-"]

def ofPieces (pieces : List (List Char)) : Path := ⟨String.ofList (List.intercalate ['/'] pieces)⟩

def dropIdle (pieces : List (List Char)) : List (List Char) :=
  (pieces.reverse.dropWhile isIdle).reverse

/-- The path without its last part; nothing if it has none or is the root. -/
def parent? (path : Path) : Option Path :=
  match path.pieces with
  | [] => none
  | first :: rest =>
    match (dropIdle rest).reverse with
    | [] => if first = [] then none else some ⟨""⟩
    | _ :: before =>
      match first, dropIdle before.reverse with
      | [], [] => some ⟨"/"⟩
      | first, rest => some (ofPieces (first :: rest))

/-- A path and the ones above it, as far up as there are, but no more than `count` of these. -/
def chain : (count : Nat) → Path → List Path
  | 0, path => [path]
  | count + 1, path =>
    match path.parent? with
    | some parent => path :: chain count parent
    | none => [path]

def withAncestors (path : Path) : List Path := chain path.pieces.length path

def fileName? (path : Path) : Option String :=
  match path.parts.getLast? with
  | some (.name name) => some name
  | _ => none

/-- What follows the last dot in a path's last part. A name that only begins with a dot has no
extension. -/
def extension? (path : Path) : Option String :=
  match path.fileName?.map fun name => Text.cutAtLast? '.' name.toList with
  | some (some (_ :: _, extension)) => some (String.ofList extension)
  | _ => none

def Part.rank : Part → Nat
  | root => 0
  | here => 1
  | up => 2
  | name _ => 3

def Part.before (a b : Part) : Bool :=
  match a, b with
  | name a, name b => a < b
  | a, b => a.rank < b.rank

def partsInOrder : List Part → List Part → Bool
  | [], _ => true
  | _ :: _, [] => false
  | a :: as, b :: bs => a.before b || (!b.before a && partsInOrder as bs)

def inOrder (a b : Path) : Bool := partsInOrder a.parts b.parts

end Path

end Linkage
