import Linkage.Command.Execution
import Linkage.Command.Line
import Linkage.Logging

/-!
The program.

What a command may look at is loaded before it starts, and what it has written is stored when it
ends.
-/

namespace Linkage

def Manifest.paths (manifest : Manifest) : List Path :=
  manifest.compiledOutputs ++ manifest.stubRoots ++ manifest.resourceRoots
    ++ (manifest.compileClasspath ++ manifest.runtimeClasspath).map Dependency.file

def Command.paths : Command → List Path
  | analyze manifest _ _ | used manifest => [manifest]
  | abi outputs _ => outputs
  | aggregate outcomes _ => outcomes

def Command.furtherPaths (disk : FileSystem) : Command → List Path
  | analyze manifest _ _ | used manifest =>
    match Manifest.load disk manifest with
    | .ok manifest => manifest.paths
    | .error _ => []
  | _ => []

def Command.target? (disk : FileSystem) : Command → Option Path
  | analyze manifest out _ => (Manifest.load disk manifest).toOption.map (·.reportDirectory out)
  | aggregate _ out => some out
  | _ => none

def diskPlace (names : List String) : String := "/" ++ "/".intercalate names

/-- Takes in the file or directory under some names, without the entries of a directory. -/
def loadPlace (root : FileTree) (names : List String) : IO FileTree := do
  if (root.under? names).isSome then return root
  let place := System.mkFilePath [diskPlace names]
  if ← place.isDir then return FileTree.put (.directory []) names root
  else if ← place.pathExists then
    return FileTree.put (.file (← IO.FS.readBinFile place)) names root
  else return root

def entryNames (names : List String) : IO (List String) := do
  let place := System.mkFilePath [diskPlace names]
  if ← place.isDir then return (← place.readDir).toList.map (·.fileName) else return []

/-- Takes in the file or directory under some names, with all that lies below it. -/
partial def loadAll (root : FileTree) (names : List String) : IO FileTree := do
  let mut root ← loadPlace root names
  for name in ← entryNames names do
    root ← loadAll root (names ++ [name])
  return root

def loadEntries (root : FileTree) (names : List String) : IO FileTree := do
  let mut root ← loadPlace root names
  for name in ← entryNames names do
    root ← loadPlace root (names ++ [name])
  return root

def FileSystem.load (disk : FileSystem) (path : Path)
    (manner : FileTree → List String → IO FileTree) : IO FileSystem := do
  let mut root := disk.root
  let mut names := disk.start path
  for piece in path.pieces do
    if piece = ['.', '.'] then names := names.dropLast
    else if !Path.isIdle piece then names := names ++ [String.ofList piece]
    root ← loadPlace root names
  return { disk with root := ← manner root names }

def Invocation.load (invocation : Invocation) : IO FileSystem := do
  let current ← IO.currentDir
  let here := (current.toString.splitOn "/").filter (· ≠ "")
  let mut disk ← FileSystem.load { root := .directory [], here } ⟨current.toString⟩ loadPlace
  disk ← disk.load invocation.configPath loadPlace
  for path in invocation.command.paths do
    disk ← disk.load path loadAll
  for path in invocation.command.furtherPaths disk do
    disk ← disk.load path loadAll
  for path in (invocation.command.target? disk).toList do
    disk ← disk.load path loadEntries
  return disk

def storeChanges (before after : FileSystem) : IO Unit := do
  for (names, content) in before.root.filesSince after.root do
    IO.FS.createDirAll (diskPlace names.dropLast)
    IO.FS.writeBinFile (diskPlace names) content

def usage : List String :=
  ["Usage: depsight [-r DIR] [-c FILE] COMMAND",
   "",
   "Dependency usage and ABI analysis for JVM modules",
   "",
   "Commands:",
   "  analyze MANIFEST [-o DIR] [--strict]   analyze a module and write all reports",
   "  used MANIFEST                          print the symbols that a module uses",
   "  abi PATH... [--dump | --reduced]       print the ABI of compiled outputs",
   "  aggregate OUTCOME... [-o DIR]          merge outcomes into root reports",
   "  help [COMMAND]                         print this text",
   "",
   "Options:",
   "  -r, --root DIR      project root",
   "  -c, --config FILE   settings, by default those in the project root",
   "  -h, --help          print this text",
   "  -V, --version       print the version"]

def Invocation.execute (invocation : Invocation) : IO UInt32 := do
  let disk ← invocation.load
  let level := LogLevel.ofRequest (← IO.getEnv "DEPSIGHT_LOG")
  let (stop, session) := match invocation.run { disk } with
    | .ok _ session => (none, session)
    | .error stop session => (some stop, session)
  for line in level.lines session.events do
    IO.eprintln line
  storeChanges disk session.disk
  IO.print session.printed
  match stop with
  | none => return 0
  | some stop =>
    IO.eprintln stop.line
    return 1

end Linkage

/-- Does what the command line says. Its misuse gives the exit code 2. -/
def main (arguments : List String) : IO UInt32 := do
  match Linkage.Invocation.ofArguments arguments with
  | .ok invocation => invocation.execute
  | .error .helpRequested =>
    IO.print (Linkage.Text.ofLines Linkage.usage)
    return 0
  | .error .versionRequested =>
    IO.println Linkage.versionLine
    return 0
  | .error (.misused fault) =>
    IO.eprintln s!"error: {fault.message}"
    IO.eprint (Linkage.Text.ofLines Linkage.usage)
    return 2
