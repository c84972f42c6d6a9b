import Linkage.Archive.Basic
import Linkage.ClassFile.Basic
import Linkage.FileSystem.Basic
import Linkage.Run
import Linkage.SymbolSet

/-!
Compiled classes, wherever they are: below a directory, in an archive or in a file of their own.

The class units at a path are visited in order, and the first one that cannot be read or decoded, or
that the visitor refuses, ends the visit with its failure.
-/

namespace Linkage

inductive UnitSource
  | directory
  | archive
  | classFile
  deriving DecidableEq, Repr

namespace UnitSource

def name : UnitSource → String
  | directory => "directory"
  | archive => "archive"
  | classFile => "class file"

def classExtension : String := "class"

/-- What a path leads to, if it leads to anything. A file of any other extension counts as an
archive. -/
def at? (disk : FileSystem) (path : Path) : Option UnitSource :=
  match disk.find path with
  | .error _ => none
  | .ok (.directory _) => some directory
  | .ok (.file _) => some (if path.extension? = some classExtension then classFile else archive)

end UnitSource

structure ClassUnit where
  origin : String
  content : Except Failure ByteArray

def boundedContent (limits : Limits) (path : Path) (content : ByteArray) :
    Except Failure ByteArray :=
  if limits.entryBytes < content.size then
    .error (.malformed path none
      (.limitExceeded s!"class file is {content.size} bytes (max {limits.entryBytes})"))
  else .ok content

/-- The class units at a path. Only the directory of an archive is read for it. -/
def classUnits (disk : FileSystem) (limits : Limits) (path : Path) :
    Except Failure (List ClassUnit) := do
  match UnitSource.at? disk path with
  | none => throw (.unreadable path .absent)
  | some .classFile =>
    return [⟨path.text, (disk.read path).bind (boundedContent limits path)⟩]
  | some .archive =>
    match Archive.ofBytes limits (← disk.read path) with
    | .error fault => throw (.malformed path none fault)
    | .ok archive =>
      return (archive.entries.filter Archive.Entry.isClass).map fun entry =>
        ⟨entry.name, (archive.read limits entry).mapError (.malformed path (some entry.name))⟩
  | some .directory =>
    return (← disk.withExtensions path [UnitSource.classExtension]).map fun found =>
      ⟨"/".intercalate found.below, boundedContent limits found.path found.content⟩

section Visiting

variable {σ : Type}

/-- A visitor that may refuse a class. Its state is kept if it does. -/
abbrev Visitor (σ : Type) := String → ClassFile → EStateM Fault σ Unit

def ClassUnit.visit (path : Path) (visitor : Visitor σ) (unit : ClassUnit) :
    EStateM Failure σ Unit := fun state =>
  match unit.content with
  | .error failure => .error failure state
  | .ok bytes =>
    match ClassFile.ofBytes bytes.data.toList with
    | .error fault => .error (.malformed path (some unit.origin) fault) state
    | .ok decoded =>
      match visitor unit.origin decoded state with
      | .ok _ state => .ok () state
      | .error fault state => .error (.malformed path (some unit.origin) fault) state

def visitClasses (disk : FileSystem) (limits : Limits) (path : Path) (visitor : Visitor σ) :
    EStateM Failure σ Unit := fun state =>
  match classUnits disk limits path with
  | .error failure => .error failure state
  | .ok units => units.forM (ClassUnit.visit path visitor) state

def foldClasses (disk : FileSystem) (limits : Limits) (path : Path)
    (step : σ → ClassFile → Except Fault σ) (start : σ) : Run σ := do
  match UnitSource.at? disk path with
  | some source => note (.readingUnits path source.name)
  | none => pure ()
  let visitor : Visitor σ := fun _ unit state =>
    match step state unit with
    | .ok state => .ok () state
    | .error fault => .error fault state
  match visitClasses disk limits path visitor start with
  | .ok _ state => return state
  | .error failure _ => throw failure

end Visiting

/-- The symbols of the types that the classes at a path define, generated helpers aside. -/
def definedSymbols (disk : FileSystem) (limits : Limits) (path : Path) : Run SymbolSet := do
  let defined ← foldClasses disk limits path
    (fun symbols unit => .ok (if unit.definesType then unit.symbol :: symbols else symbols)) []
  return (SymbolSet.ofList defined).filter fun symbol => !symbol.isSynthetic

end Linkage
