import Linkage.ClassFile.References
import Linkage.ClassUnit
import Linkage.Config
import Linkage.Scan.TextFiles

/-!
The symbols that a module uses from outside itself.

Compiled code, generated stubs and resources all tell what is used. What any of the compiled outputs
defines is the module's own and does not count, wherever it is mentioned.
-/

namespace Linkage

structure UsageSources where
  compiledOutputs : List Path
  stubRoots : List Path
  resourceRoots : List Path
  deriving DecidableEq, Repr

/-- The internal names of the types that some classes define and refer to, repeated as found. -/
structure OutputFacts where
  defined : List String
  referenced : List String
  deriving DecidableEq, Repr

namespace OutputFacts

def empty : OutputFacts := ⟨[], []⟩

def add (facts : OutputFacts) (unit : ClassFile) : Except Fault OutputFacts := do
  let references ← unit.references
  return {
    defined := if unit.definesType then unit.thisClass :: facts.defined else facts.defined
    referenced := references ++ facts.referenced }

def ofOutputs (disk : FileSystem) (limits : Limits) (outputs : List Path) : Run OutputFacts :=
  outputs.foldlM (fun facts output => foldClasses disk limits output OutputFacts.add facts) empty

end OutputFacts

def symbolsOf (names : List String) : SymbolSet := SymbolSet.ofList (names.map Symbol.ofInternal)

def usedSymbols (disk : FileSystem) (config : Config) (sources : UsageSources) : Run SymbolSet := do
  let facts ← OutputFacts.ofOutputs disk config.limits sources.compiledOutputs
  let own := symbolsOf facts.defined
  let inCode := symbolsOf facts.referenced
  let inStubs ← Scan.scanRoots disk config.limits .stub config.scan.stubExtensions sources.stubRoots
  let inResources ← Scan.scanRoots disk config.limits .pattern config.scan.resourceExtensions
    sources.resourceRoots
  let candidates := inCode ∪ inStubs ∪ inResources
  note (.candidatesCollected inCode.size (candidates.size - inCode.size))
  let used := (candidates \ own).filter fun symbol => !symbol.isSynthetic
  note (.usedExtracted own.size used.size)
  return used

end Linkage
