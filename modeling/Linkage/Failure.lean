import Linkage.Fault
import Linkage.Path

/-!
Why a whole run stops.

A run that stops gives no partial result. Data that does not decode is told apart from files that
cannot be read and from documents that do not say what they should.
-/

namespace Linkage

inductive Obstacle
  | absent
  | notFound
  | notDirectory
  | isDirectory
  | alreadyExists
  | notText
  deriving DecidableEq, Repr

def Obstacle.message : Obstacle → String
  | absent => "path does not exist"
  | notFound => "No such file or directory (os error 2)"
  | notDirectory => "Not a directory (os error 20)"
  | isDirectory => "Is a directory (os error 21)"
  | alreadyExists => "File exists (os error 17)"
  | notText => "stream did not contain valid UTF-8"

inductive Failure
  | malformed (path : Path) (entry : Option String) (fault : Fault)
  | unreadable (path : Path) (obstacle : Obstacle)
  | duplicateArtifact (canonical : String)
  | badConfig
  | badManifest
  deriving DecidableEq, Repr

namespace Failure

def message : Failure → String
  | malformed path entry fault =>
      let place := match entry with
        | some entry => s!" (entry {entry})"
        | none => ""
      s!"malformed artifact {path.text}{place}: {fault.message}"
  | unreadable path obstacle => s!"I/O error on {path.text}: {obstacle.message}"
  | duplicateArtifact canonical => s!"duplicate artifact identity `{canonical}`"
  | badConfig => "invalid configuration: not a configuration table"
  | badManifest => "invalid module manifest: not a module manifest"

def causeMessage? : Failure → Option String
  | malformed _ _ fault => some fault.message
  | unreadable _ obstacle => some obstacle.message
  | _ => none

def isMalformed : Failure → Bool
  | malformed .. => true
  | _ => false

end Failure

end Linkage
