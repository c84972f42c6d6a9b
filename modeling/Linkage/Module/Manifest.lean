import Linkage.Artifact
import Linkage.Failure
import Linkage.FileSystem.Basic
import Linkage.Toml.Document

/-!
Manifests: what the build says about one variant of a module.

A manifest is written in JSON or TOML. Paths in it that are not absolute start from the directory of
the manifest.
-/

namespace Linkage

inductive Flavor
  /-- Nothing is compiled against it. -/
  | application
  /-- A library with resources. -/
  | library
  /-- A library without resources. -/
  | plain
  deriving DecidableEq, Repr, Inhabited

namespace Flavor

def name : Flavor → String
  | application => "application"
  | library => "library"
  | plain => "plain"

def scansResources (flavor : Flavor) : Bool := flavor ≠ plain

def hasAbi (flavor : Flavor) : Bool := flavor ≠ application

def ofData? (origin : Origin) (data : Data) : Option Flavor := do
  match ← data.choice? origin with
  | "application" => return application
  | "library" => return library
  | "plain" => return plain
  | _ => none

end Flavor

def variantTitle (modulePath variant : String) : String := s!"{modulePath} ({variant})"

structure Manifest where
  modulePath : String
  variant : String := "main"
  flavor : Flavor := .library
  compiledOutputs : List Path := []
  stubRoots : List Path := []
  resourceRoots : List Path := []
  compileClasspath : List Dependency := []
  /-- Empty if the build tells only one classpath. -/
  runtimeClasspath : List Dependency := []
  deriving DecidableEq, Repr

namespace Manifest

def title (manifest : Manifest) : String := variantTitle manifest.modulePath manifest.variant

def misuseClasspath (manifest : Manifest) : List Dependency :=
  if manifest.runtimeClasspath.isEmpty then manifest.compileClasspath
  else manifest.runtimeClasspath

/-- The manifest with its paths taken from a directory, unless they are absolute. -/
def resolve (manifest : Manifest) (base : Path) : Manifest :=
  let resolveFile (dependency : Dependency) : Dependency :=
    { dependency with file := base.join dependency.file }
  { manifest with
    compiledOutputs := manifest.compiledOutputs.map base.join
    stubRoots := manifest.stubRoots.map base.join
    resourceRoots := manifest.resourceRoots.map base.join
    compileClasspath := manifest.compileClasspath.map resolveFile
    runtimeClasspath := manifest.runtimeClasspath.map resolveFile }

/-- The directory for the reports on the variant, below another: a directory for each name in the
module's path, and one for the variant. The module at the root has a name of its own there. -/
def reportDirectory (manifest : Manifest) (out : Path) : Path :=
  let names := (Text.partsAt ':' manifest.modulePath.toList).filter (· ≠ [])
  let names := if names.isEmpty then ["root"] else names.map String.ofList
  (names ++ [manifest.variant]).foldl (fun path name => path.join ⟨name⟩) out

def ofData? (origin : Origin) (data : Data) : Option Manifest := do
  let [modulePath, variant, flavor, outputs, stubs, resources, compile, runtime] ← data.record?
    ["module", "variant", "flavor", "compiled_outputs", "stub_dirs", "resource_dirs",
     "compile_classpath", "runtime_classpath"] | none
  let paths (field : Option Data) : Option (List Path) :=
    (Data.orElse? [] (Data.list? Data.text?) field).map fun texts => texts.map Path.mk
  let classpath := Data.orElse? [] (Data.list? (Dependency.ofData? origin 2))
  return {
    modulePath := ← Data.required? Data.text? modulePath
    variant := ← Data.orElse? "main" Data.text? variant
    flavor := ← Data.orElse? .library (Flavor.ofData? origin) flavor
    compiledOutputs := ← paths outputs
    stubRoots := ← paths stubs
    resourceRoots := ← paths resources
    compileClasspath := ← classpath compile
    runtimeClasspath := ← classpath runtime }

def ofJson? (text : String) : Option Manifest := (Json.read? text).bind (ofData? .json)

def ofToml? (text : String) : Option Manifest := (Toml.read? text).bind (ofData? .toml)

def toData (manifest : Manifest) : Data :=
  let paths (paths : List Path) : Data := .texts (paths.map Path.text)
  let classpath (dependencies : List Dependency) : Data :=
    .list (dependencies.map Dependency.toData)
  .table [("module", .text manifest.modulePath), ("variant", .text manifest.variant),
    ("flavor", .text manifest.flavor.name), ("compiled_outputs", paths manifest.compiledOutputs),
    ("stub_dirs", paths manifest.stubRoots), ("resource_dirs", paths manifest.resourceRoots),
    ("compile_classpath", classpath manifest.compileClasspath),
    ("runtime_classpath", classpath manifest.runtimeClasspath)]

/-- The manifest in a file. Its extension tells TOML from JSON. -/
def load (disk : FileSystem) (path : Path) : Except Failure Manifest := do
  let text ← disk.readText path
  let manifest := if path.extension? = some "toml" then ofToml? text else ofJson? text
  match manifest, path.parent? with
  | none, _ => throw .badManifest
  | some manifest, some base => return manifest.resolve base
  | some manifest, none => return manifest

end Manifest

end Linkage
