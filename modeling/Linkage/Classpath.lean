import Linkage.ClassUnit
import Linkage.Index

/-!
Indexing a classpath: every artifact is read for the symbols that it defines.
-/

namespace Linkage

def definitionOf (disk : FileSystem) (limits : Limits) (dependency : Dependency) :
    Run (Dependency × SymbolSet) := do
  let defined ← definedSymbols disk limits dependency.file
  note (.artifactIndexed dependency.identity.canonical defined.size)
  return (dependency, defined)

def indexClasspath (disk : FileSystem) (limits : Limits) (classpath : List Dependency) :
    Run Index := do
  let definitions ← classpath.mapM (definitionOf disk limits)
  let index ← Index.ofDefinitions definitions
  index.ambiguities.forM fun ambiguity => note (.ambiguousOwner ambiguity.message)
  note (.indexBuilt index.size index.symbolCount index.ambiguities.length)
  return index

end Linkage
