import Linkage.Failure
import Linkage.FileTree

/-!
File systems, and what a path leads to in one.

Each piece of a path asks for a directory to look in, also one that leads nowhere. Two dots at the
root stay there.
-/

namespace Linkage

structure FileSystem where
  root : FileTree
  /-- The names that lead to the directory. -/
  here : List String
  deriving Inhabited

namespace FileSystem

/-- The names that lead to a place, the outermost first, once another piece of a path has been
followed. -/
def follow (disk : FileSystem) (place : List String) (piece : List Char) :
    Except Obstacle (List String) :=
  match disk.root.under? place with
  | some (.directory entries) =>
    if Path.isIdle piece then .ok place
    else if piece = ['.', '.'] then .ok place.dropLast
    else if (entries.lookup (String.ofList piece)).isSome then .ok (place ++ [String.ofList piece])
    else .error .notFound
  | _ => .error .notDirectory

def start (disk : FileSystem) (path : Path) : List String :=
  if path.isAbsolute then [] else disk.here

def find (disk : FileSystem) (path : Path) : Except Obstacle FileTree := do
  if path.text.isEmpty then throw .notFound
  match disk.root.under? (← path.pieces.foldlM disk.follow (disk.start path)) with
  | some found => return found
  | none => throw .notFound

def contains (disk : FileSystem) (path : Path) : Bool := (disk.find path).isOk

def isDirectory (disk : FileSystem) (path : Path) : Bool :=
  match disk.find path with
  | .ok (.directory _) => true
  | _ => false

def read (disk : FileSystem) (path : Path) : Except Failure ByteArray :=
  match disk.find path with
  | .ok (.file content) => .ok content
  | .ok (.directory _) => .error (.unreadable path .isDirectory)
  | .error obstacle => .error (.unreadable path obstacle)

def readText (disk : FileSystem) (path : Path) : Except Failure String := do
  match String.fromUTF8? (← disk.read path) with
  | some text => return text
  | none => throw (.unreadable path .notText)

structure Found where
  path : Path
  /-- The names between the root and the file. -/
  below : List String
  content : ByteArray

def withExtensions (disk : FileSystem) (root : Path) (extensions : List String) :
    Except Failure (List Found) :=
  match disk.find root with
  | .error obstacle => .error (.unreadable root obstacle)
  | .ok found =>
    if root.isStandardInput then .ok []
    else
      let all := found.files.map fun (below, content) =>
        ({ path := below.foldl (fun path name => path.join ⟨name⟩) root, below, content } : Found)
      let wanted := all.filter fun found => found.path.extension?.any extensions.contains
      .ok (wanted.mergeSort fun a b => a.path.inOrder b.path)

end FileSystem

end Linkage
