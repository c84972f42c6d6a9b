import Linkage.Command.Basic
import Linkage.FileSystem.Writing
import Linkage.Module.Analysis
import Linkage.Module.ReportFiles

/-!
Carrying out commands.

What a command has written, printed and reported up to the point where it stops is kept. Reports are
written before anything is printed, so that a strict analysis leaves its reports behind.
-/

namespace Linkage

inductive Activity
  | readingManifest (path : Path)
  | analyzing (title : String)
  | extractingUse (title : String)
  | creating (directory : Path)
  | writing (file : Path)
  deriving DecidableEq, Repr

def Activity.description : Activity → String
  | readingManifest path => s!"reading manifest {path.text}"
  | analyzing title => s!"analyzing {title}"
  | extractingUse title => s!"extracting used symbols for {title}"
  | creating directory => s!"creating {directory.text}"
  | writing file => s!"writing {file.text}"

inductive Stop
  | failed (activity : Option Activity) (failure : Failure)
  | unwritable (activity : Activity) (obstacle : Obstacle)
  | misuseFound (title : String)
  deriving DecidableEq, Repr

namespace Stop

/-- What the command was doing, and why it stops, from the outermost message to the innermost. A
message that says what lies behind it is followed by that once more. -/
def messages : Stop → List String
  | failed activity failure =>
      activity.toList.map Activity.description ++ failure.message :: failure.causeMessage?.toList
  | unwritable activity obstacle => [activity.description, obstacle.message]
  | misuseFound title => [s!"dependency misuse found in {title}"]

def line (stop : Stop) : String := "Error: " ++ ": ".intercalate stop.messages

end Stop

structure Session where
  disk : FileSystem
  printed : String := ""
  events : List Event := []

abbrev Job := EStateM Stop Session

namespace Job

variable {α : Type}

def disk : Job FileSystem := return (← get).disk

def print (text : String) : Job Unit :=
  modify fun session => { session with printed := session.printed ++ text }

def perform (activity : Option Activity) (run : Run α) : Job α := fun session =>
  match run session.events with
  | .ok value events => .ok value { session with events }
  | .error failure events => .error (.failed activity failure) { session with events }

def change (activity : Activity) (step : FileSystem → Except Obstacle FileSystem) : Job Unit := do
  match step (← disk) with
  | .ok disk => modify fun session => { session with disk }
  | .error obstacle => throw (.unwritable activity obstacle)

def writeFile (directory : Path) (file : ReportFile) : Job Unit :=
  let path := directory.join ⟨file.name⟩
  change (.writing path) fun disk => disk.write path file.text.toUTF8

def writeFiles (directory : Path) (files : List ReportFile) : Job Unit := do
  change (.creating directory) fun disk => disk.makeDirectories directory
  files.forM (writeFile directory)

def readManifest (path : Path) : Job Manifest := do
  perform (some (.readingManifest path)) (Manifest.load (← disk) path)

def present (strict : Bool) : ModuleOutcome → Job Unit
  | .analyzed report => do
    print report.misuseSummary
    if strict && !report.misuse.isClean then throw (.misuseFound report.title)
  | .skipped modulePath variant reason =>
    print s!"Skipped {variantTitle modulePath variant}: {reason}\n"

end Job

def Command.run (config : Config) : Command → Job Unit
  | analyze manifest out strict => do
    let manifest ← Job.readManifest manifest
    let outcome ← Job.perform (some (.analyzing manifest.title))
      (analyzeModule (← Job.disk) config manifest)
    let directory := manifest.reportDirectory out
    Job.writeFiles directory outcome.files
    Job.perform none (note (.reportsWritten directory))
    Job.present strict outcome
  | used manifest => do
    let manifest ← Job.readManifest manifest
    let used ← Job.perform (some (.extractingUse manifest.title))
      (usedSymbols (← Job.disk) config manifest.usageSources)
    Job.print (Text.ofLines (used.toList.map Symbol.name))
  | abi outputs form => do
    let report ← Job.perform none (analyzeAbi (← Job.disk) config none outputs)
    Job.print (match form with
      | .fingerprint => report.fingerprint ++ "\n"
      | .dump => report.dump
      | .reduced => report.reduced)
  | aggregate outcomes out => do
    let disk ← Job.disk
    let outcomes : List ModuleOutcome ← Job.perform none
      (outcomes.mapM fun path => ModuleOutcome.load disk path)
    let reports ← Job.perform none (Linkage.aggregate outcomes)
    Job.writeFiles out reports.files
    let count := reports.misuse.entries.length
    Job.print (s!"{count} module variants, {reports.misuseCount} with misuse, "
      ++ s!"{reports.misuse.skippedCount} skipped\n")

def Invocation.run (invocation : Invocation) : Job Unit := do
  let config ← Job.perform none (Config.load (← Job.disk) invocation.configPath)
  invocation.command.run config

end Linkage
