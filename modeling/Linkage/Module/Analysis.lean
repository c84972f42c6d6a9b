import Linkage.Abi.Extraction
import Linkage.Classpath
import Linkage.Module.Outcome
import Linkage.Usage

/-!
Analyzing one variant of a module: what it uses, what its classpaths own, what it does wrong with
its dependencies, and its binary interface.

A module without compiled outputs is skipped. Anything that cannot be read stops the analysis, so
that no report is ever about a part of a module.
-/

namespace Linkage

namespace Manifest

def usageSources (manifest : Manifest) : UsageSources where
  compiledOutputs := manifest.compiledOutputs
  stubRoots := manifest.stubRoots
  resourceRoots := if manifest.flavor.scansResources then manifest.resourceRoots else []

def missingOutput? (manifest : Manifest) (disk : FileSystem) : Option String :=
  if manifest.compiledOutputs.isEmpty then some "no compiled outputs"
  else
    (manifest.compiledOutputs.find? fun output => !disk.contains output).map fun output =>
      s!"compiled output {output.text} does not exist"

end Manifest

/-- The settings in a file, or the usual ones if it cannot be used. -/
def Config.load (disk : FileSystem) (path : Path) : Run Config := do
  if !disk.contains path then
    note (.configMissing path)
    return {}
  match disk.readText path with
  | .error failure =>
    note (.configUnreadable path (failure.causeMessage?.getD failure.message))
    return {}
  | .ok text =>
    match Config.ofToml? text with
    | some config => return config
    | none =>
      note (.configInvalid path Failure.badConfig.message)
      return {}

def moduleAbi (disk : FileSystem) (config : Config) (manifest : Manifest) (index : Index) :
    Run (Option AbiReport) := do
  if manifest.flavor.hasAbi then
    return some (← analyzeAbi disk config (some index) manifest.compiledOutputs)
  else
    return none

/-- The index of the runtime classpath, or of the compile classpath if the build tells only that. -/
def runtimeIndex (disk : FileSystem) (config : Config) (manifest : Manifest) (compile : Index) :
    Run Index :=
  if manifest.runtimeClasspath.isEmpty then return compile
  else indexClasspath disk config.limits manifest.runtimeClasspath

def moduleMisuse (config : Config) (manifest : Manifest) (index : Index) (used : SymbolSet) :
    Run Misuse := do
  let graph := DependencyGraph.ofDependencies manifest.misuseClasspath
  note (.graphBuilt graph.nodes.length graph.edges.length)
  let misuse := Misuse.ofUse config.misuse index used graph
  note (.misuseComputed misuse.unusedDirect.length misuse.usedTransitive.length
    misuse.unobservable.length)
  return misuse

def reportModule (disk : FileSystem) (config : Config) (manifest : Manifest) :
    Run ModuleReport := do
  let used ← usedSymbols disk config manifest.usageSources
  let compile ← indexClasspath disk config.limits manifest.compileClasspath
  let runtime ← runtimeIndex disk config manifest compile
  let misuse ← moduleMisuse config manifest runtime used
  let abi ← moduleAbi disk config manifest compile
  note (.moduleAnalyzed manifest.modulePath manifest.variant used.size misuse.unusedDirect.length
    misuse.usedTransitive.length)
  return {
    modulePath := manifest.modulePath, variant := manifest.variant, flavor := manifest.flavor
    usedSymbols := used
    compileArtifacts := ArtifactsReport.ofIndex compile
    runtimeArtifacts := ArtifactsReport.ofIndex runtime
    misuse, abi }

def analyzeModule (disk : FileSystem) (config : Config) (manifest : Manifest) : Run ModuleOutcome :=
  match manifest.missingOutput? disk with
  | some reason => do
    note (.moduleSkipped manifest.modulePath manifest.variant reason)
    return .skipped manifest.modulePath manifest.variant reason
  | none => do
    return .analyzed (← reportModule disk config manifest)

end Linkage
