import Linkage.FileSystem.Basic

/-!
Writing files and making directories.
-/

namespace Linkage.FileSystem

/-- The names that lead to what a path is to lead to, whether it is there already or not. Only the
directory around it has to be there. -/
def newPlace (disk : FileSystem) (path : Path) : Except Obstacle (List String) := do
  if path.text.isEmpty then throw .notFound
  match path.pieces.reverse.dropWhile (· = []) with
  | [] => throw .alreadyExists
  | last :: before =>
    let around ← before.reverse.foldlM disk.follow (disk.start path)
    if Path.isIdle last || last = ['.', '.'] then throw .alreadyExists
    match disk.root.under? around with
    | some (.directory _) => return around ++ [String.ofList last]
    | _ => throw .notDirectory

def put (disk : FileSystem) (place : List String) (content : FileTree) : FileSystem :=
  { disk with root := FileTree.put content place disk.root }

def write (disk : FileSystem) (path : Path) (content : ByteArray) : Except Obstacle FileSystem := do
  let place ← disk.newPlace path
  match disk.root.under? place with
  | some (.directory _) => throw .isDirectory
  | _ => return disk.put place (.file content)

def makeDirectory (disk : FileSystem) (path : Path) : Except Obstacle FileSystem := do
  let place ← disk.newPlace path
  match disk.root.under? place with
  | some _ => throw .alreadyExists
  | none => return disk.put place (.directory [])

/-- Takes a directory that could not be made for being there already. -/
def acceptDirectory (disk : FileSystem) (path : Path) :
    Except Obstacle FileSystem → Except Obstacle FileSystem
  | .ok disk => .ok disk
  | .error obstacle => if disk.isDirectory path then .ok disk else .error obstacle

/-- Makes the first of some directories, of which each lies in the next, and those around it that
are missing. The empty path needs no directory. -/
def makeChain (disk : FileSystem) : List Path → Except Obstacle FileSystem
  | [] => .error .notFound
  | path :: around =>
    if path.text.isEmpty then .ok disk
    else
      match disk.makeDirectory path with
      | .error .notFound =>
        match disk.makeChain around with
        | .ok disk => disk.acceptDirectory path (disk.makeDirectory path)
        | .error obstacle => .error obstacle
      | made => disk.acceptDirectory path made

def makeDirectories (disk : FileSystem) (path : Path) : Except Obstacle FileSystem :=
  disk.makeChain path.withAncestors

end Linkage.FileSystem
