import Linkage.Artifact
import Linkage.Failure
import Std.Data.HashMap

/-!
Who owns which symbol on a classpath.

The artifacts of a classpath are searched in order, so a symbol that several of them define belongs
to the first. Every further definition is an ambiguity.
-/

namespace Linkage

/-- A symbol that an artifact defines although an earlier one owns it. Artifacts are named by their
canonical identities. -/
structure Ambiguity where
  symbol : Symbol
  owner : String
  claimant : String
  deriving DecidableEq, Repr

namespace Ambiguity

def message (ambiguity : Ambiguity) : String :=
  s!"{ambiguity.symbol.name} is defined by both {ambiguity.owner} and {ambiguity.claimant}; " ++
    s!"attributing it to {ambiguity.owner}"

def toData (ambiguity : Ambiguity) : Data :=
  .table [("kind", .text "ambiguous_ownership"), ("symbol", .text ambiguity.symbol.name),
    ("owner", .text ambiguity.owner), ("claimant", .text ambiguity.claimant)]

def inOrder (a b : Ambiguity) : Bool :=
  if a.symbol ≠ b.symbol then a.symbol < b.symbol
  else if a.owner ≠ b.owner then a.owner < b.owner
  else !decide (b.claimant < a.claimant)

end Ambiguity

/-- The artifacts of a classpath in order, the owner of each symbol, and the ambiguities in the
order in which they were found. -/
structure Index where
  artifacts : List Artifact
  owners : Std.HashMap Symbol Identity
  ambiguities : List Ambiguity

namespace Index

def empty : Index := ⟨[], ∅, []⟩

def add (index : Index) (dependency : Dependency) (defined : SymbolSet) : Index :=
  let owned := defined.filter fun symbol => !index.owners.contains symbol
  let claimed := defined.toList.filterMap fun symbol =>
    index.owners[symbol]?.map fun owner =>
      ({ symbol, owner := owner.canonical, claimant := dependency.identity.canonical } : Ambiguity)
  { artifacts := index.artifacts ++ [{
      identity := dependency.identity, declaration := dependency.declaration,
      parents := dependency.parents, symbols := owned }]
    owners := owned.toList.foldl (fun owners symbol => owners.insert symbol dependency.identity)
      index.owners
    ambiguities := index.ambiguities ++ claimed }

def addAll (index : Index) : List (Dependency × SymbolSet) → Except Failure Index
  | [] => .ok index
  | (dependency, defined) :: more =>
    if index.artifacts.any (·.identity = dependency.identity) then
      .error (.duplicateArtifact dependency.identity.canonical)
    else (index.add dependency defined).addAll more

def ofDefinitions (definitions : List (Dependency × SymbolSet)) : Except Failure Index :=
  empty.addAll definitions

def size (index : Index) : Nat := index.artifacts.length

def symbolCount (index : Index) : Nat := index.owners.size

def get? (index : Index) (identity : Identity) : Option Artifact :=
  index.artifacts.find? (·.identity = identity)

def ownerOf? (index : Index) (symbol : Symbol) : Option Identity := index.owners[symbol]?

end Index

end Linkage
