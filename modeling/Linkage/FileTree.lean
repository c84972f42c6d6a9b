/-!
Trees of files.
-/

namespace Linkage

inductive FileTree
  | file (content : ByteArray)
  | directory (entries : List (String × FileTree))
  deriving Inhabited

namespace FileTree

def under? : FileTree → List String → Option FileTree
  | tree, [] => some tree
  | .file _, _ :: _ => none
  | .directory entries, name :: names => (entries.lookup name).bind fun tree => tree.under? names

mutual

def files : FileTree → List (List String × ByteArray)
  | .file content => [([], content)]
  | .directory entries => filesOf entries
termination_by structural tree => tree

def filesOf : List (String × FileTree) → List (List String × ByteArray)
  | [] => []
  | entry :: entries => filesIn entry ++ filesOf entries
termination_by structural entries => entries

def filesIn : String × FileTree → List (List String × ByteArray)
  | (name, tree) => tree.files.map fun (names, content) => (name :: names, content)
termination_by structural entry => entry

end

def putEntry (name : String) (tree : FileTree) : List (String × FileTree) → List (String × FileTree)
  | [] => [(name, tree)]
  | entry :: entries =>
    if entry.1 = name then (name, tree) :: entries else entry :: putEntry name tree entries

/-- A tree with something put under some names, the outermost first, and directories made on the
way. Nothing is put under a file. -/
def put (content : FileTree) : (names : List String) → FileTree → FileTree
  | [], _ => content
  | _ :: _, .file old => .file old
  | name :: names, .directory entries =>
      let inner := (entries.lookup name).getD (.directory [])
      .directory (putEntry name (put content names inner) entries)

def contentAt? (tree : FileTree) (names : List String) : Option ByteArray :=
  match tree.under? names with
  | some (.file content) => some content
  | _ => none

/-- The files in a tree that another tree does not have, or not with this content. -/
def filesSince (before after : FileTree) : List (List String × ByteArray) :=
  after.files.filter fun (names, content) => before.contentAt? names != some content

end FileTree

end Linkage
