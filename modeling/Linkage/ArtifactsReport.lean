import Linkage.Index

/-!
The artifacts report: each artifact of a classpath with the symbols that it owns.

Artifacts are listed by canonical identity, symbols and ambiguities in ascending order, so that the
order of the classpath does not show where it does not matter.
-/

namespace Linkage

structure ArtifactEntry where
  identity : String
  kind : ArtifactKind
  declaration : Declaration
  symbols : List Symbol
  deriving DecidableEq, Repr

structure ArtifactsReport where
  artifacts : List ArtifactEntry
  ambiguities : List Ambiguity
  deriving DecidableEq, Repr

def ArtifactEntry.toData (entry : ArtifactEntry) : Data :=
  .table [("identity", .text entry.identity), ("kind", .text entry.kind.name),
    ("declaration", .text entry.declaration.name),
    ("symbols", .texts (entry.symbols.map Symbol.name))]

namespace ArtifactsReport

def ofIndex (index : Index) : ArtifactsReport where
  artifacts := (index.artifacts.map fun artifact =>
      { identity := artifact.canonical, kind := artifact.identity.kind,
        declaration := artifact.declaration, symbols := artifact.symbols.toList
        : ArtifactEntry }).mergeSort fun a b => !decide (b.identity < a.identity)
  ambiguities := index.ambiguities.mergeSort Ambiguity.inOrder

/-- The last entry of a sorted list that may stand before a canonical identity, or else the first
one. The entry in the middle tells which half to go on with. -/
def lastUpTo? (canonical : String) (entries : List ArtifactEntry) : Option ArtifactEntry :=
  if longer : 1 < entries.length then
    have inside : entries.length / 2 < entries.length := by omega
    if canonical < entries[entries.length / 2].identity then
      lastUpTo? canonical (entries.take (entries.length - entries.length / 2))
    else lastUpTo? canonical (entries.drop (entries.length / 2))
  else entries.head?
termination_by entries.length
decreasing_by all_goals simp only [List.length_take, List.length_drop]; omega

/-- The entry with a canonical identity, the last one if there are several. -/
def get? (report : ArtifactsReport) (canonical : String) : Option ArtifactEntry :=
  (lastUpTo? canonical report.artifacts).filter (·.identity = canonical)

def toData (report : ArtifactsReport) : Data :=
  .table (("artifacts", .list (report.artifacts.map ArtifactEntry.toData))
    :: Data.fieldUnlessEmpty "warnings" report.ambiguities
      fun ambiguities => .list (ambiguities.map Ambiguity.toData))

def ambiguityOfData? (origin : Origin) (data : Data) : Option Ambiguity := do
  let (_, fields) ← data.tagged? origin "kind" ["ambiguous_ownership"]
  let [symbol, owner, claimant] ← fields.record? ["symbol", "owner", "claimant"] | none
  return {
    symbol := ⟨← Data.required? Data.text? symbol⟩
    owner := ← Data.required? Data.text? owner
    claimant := ← Data.required? Data.text? claimant }

def entryOfData? (origin : Origin) (data : Data) : Option ArtifactEntry := do
  let [identity, kind, declaration, symbols] ←
    data.record? ["identity", "kind", "declaration", "symbols"] | none
  return {
    identity := ← Data.required? Data.text? identity
    kind := ← Data.required? (ArtifactKind.ofData? origin) kind
    declaration := ← Data.required? (Declaration.ofData? origin) declaration
    symbols := (← Data.required? (Data.list? Data.text?) symbols).map Symbol.mk }

def ofData? (origin : Origin) (data : Data) : Option ArtifactsReport := do
  let [artifacts, ambiguities] ← data.record? ["artifacts", "warnings"] | none
  return {
    artifacts := ← Data.required? (Data.list? (entryOfData? origin)) artifacts
    ambiguities := ← Data.orElse? [] (Data.list? (ambiguityOfData? origin)) ambiguities }

end ArtifactsReport

end Linkage
