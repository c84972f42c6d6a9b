import Linkage.Data.Shape
import Linkage.Path
import Linkage.SymbolSet

/-!
Artifacts: the modules and libraries that a module is compiled against.

An artifact is named by its identity. The canonical text of an identity is what reports show and
sort by; different identities can share one, for a tagged identity may hold any text.
-/

namespace Linkage

inductive ArtifactKind
  | project
  | library
  deriving DecidableEq, Repr

namespace ArtifactKind

def name : ArtifactKind → String
  | project => "project"
  | library => "library"

def ofData? (origin : Origin) (data : Data) : Option ArtifactKind := do
  match ← data.choice? origin with
  | "project" => return project
  | "library" => return library
  | _ => none

end ArtifactKind

inductive Identity
  | project (path : String)
  /-- A library. An empty version stands for none. -/
  | library (group name version : String)
  deriving DecidableEq, Repr, Inhabited

namespace Identity

def canonical : Identity → String
  | project path => path
  | library group name version =>
      if version = "" then group ++ ":" ++ name else group ++ ":" ++ name ++ ":" ++ version

/-- The identity that a text stands for: a project if it begins with a colon, otherwise a library
with or without a version. -/
def ofText? (text : String) : Option Identity :=
  if text.startsWith ":" then some (project text)
  else
    match Text.partsAt ':' text.toList with
    | [group@(_ :: _), name@(_ :: _)] =>
        some (library (String.ofList group) (String.ofList name) "")
    | [group@(_ :: _), name@(_ :: _), version] =>
        some (library (String.ofList group) (String.ofList name) (String.ofList version))
    | _ => none

def kind : Identity → ArtifactKind
  | project _ => .project
  | library .. => .library

def toData (identity : Identity) : Data :=
  .table (("kind", .text identity.kind.name) :: match identity with
    | project path => [("path", .text path)]
    | library group name version =>
        [("group", .text group), ("name", .text name), ("version", .text version)])

/-- The identity that a value stands for: a canonical text or a tagged record. Either is kept whole
before it is looked at; `depth` lists and tables are around it. -/
def ofData? (origin : Origin) (depth : Nat) (data : Data) : Option Identity := do
  let data ← data.kept? origin depth
  match data with
  | .text text => ofText? text
  | data =>
    match ← data.tagged? origin.keep "kind" ["project", "library"] with
    | ("project", fields) =>
      let [path] ← fields.record? ["path"] | none
      return project (← Data.required? Data.text? path)
    | (_, fields) =>
      let [group, name, version] ← fields.record? ["group", "name", "version"] | none
      return library (← Data.required? Data.text? group) (← Data.required? Data.text? name)
        (← Data.orElse? "" Data.text? version)

def inOrder (a b : Identity) : Bool := !decide (b.canonical < a.canonical)

end Identity

inductive Declaration
  | direct
  | transitive
  deriving DecidableEq, Repr, Inhabited

def Declaration.name : Declaration → String
  | direct => "direct"
  | transitive => "transitive"

def Declaration.ofData? (origin : Origin) (data : Data) : Option Declaration := do
  match ← data.choice? origin with
  | "direct" => return direct
  | "transitive" => return transitive
  | _ => none

structure Dependency where
  identity : Identity
  file : Path
  declaration : Declaration
  parents : List Identity
  deriving DecidableEq, Repr

def Dependency.ofData? (origin : Origin) (depth : Nat) (data : Data) : Option Dependency := do
  let [identity, file, declaration, parents] ←
    data.record? ["identity", "file", "declaration", "parents"] | none
  return {
    identity := ← Data.required? (Identity.ofData? origin (depth + 1)) identity
    file := ⟨← Data.required? Data.text? file⟩
    declaration := ← Data.required? (Declaration.ofData? origin) declaration
    parents := ← Data.orElse? [] (Data.list? (Identity.ofData? origin (depth + 2))) parents }

def Dependency.toData (dependency : Dependency) : Data :=
  .table ([("identity", dependency.identity.toData), ("file", .text dependency.file.text),
    ("declaration", .text dependency.declaration.name)]
    ++ Data.fieldUnlessEmpty "parents" dependency.parents
      fun parents => .list (parents.map Identity.toData))

structure Artifact where
  identity : Identity
  declaration : Declaration
  parents : List Identity
  symbols : SymbolSet
  deriving DecidableEq, Repr

namespace Artifact

def canonical (artifact : Artifact) : String := artifact.identity.canonical

def isDirect (artifact : Artifact) : Bool := artifact.declaration = .direct

end Artifact

end Linkage
