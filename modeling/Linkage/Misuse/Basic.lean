import Linkage.Config
import Linkage.DependencyGraph
import Linkage.Index

/-!
Misuse of dependencies: direct ones that are not used, and transitive ones that are.

A direct dependency that owns no symbol cannot be seen to be used; it is reported apart. Patterns in
the settings allow a direct dependency to go unused. Every list is in canonical order.
-/

namespace Linkage

/-- A transitive dependency that is used: the used symbols, the direct dependencies that lead to it,
and a shortest chain from one of them. Artifacts are named by their canonical identities. -/
structure TransitiveUse where
  identity : String
  symbols : List Symbol
  via : List String
  path : List String
  deriving DecidableEq, Repr

structure Misuse where
  unusedDirect : List String
  usedTransitive : List TransitiveUse
  unobservable : List String
  allowedUnused : List String
  deriving DecidableEq, Repr

inductive Standing
  /-- A direct dependency that is used, or a transitive one that is not. -/
  | fine
  | unusedDirect
  | usedTransitive (symbols : List Symbol)
  | unobservable
  | allowedUnused
  deriving DecidableEq, Repr

def Artifact.standing (config : MisuseConfig) (used : SymbolSet) (artifact : Artifact) : Standing :=
  let usedSymbols := (artifact.symbols ∩ used).toList
  let allowed := config.allowsUnused artifact.canonical
  match artifact.declaration with
  | .direct =>
    if artifact.symbols.isEmpty then if allowed then .fine else .unobservable
    else if usedSymbols.isEmpty then if allowed then .allowedUnused else .unusedDirect
    else .fine
  | .transitive => if usedSymbols.isEmpty then .fine else .usedTransitive usedSymbols

namespace Misuse

def inCanonicalOrder (texts : List String) : List String :=
  texts.mergeSort fun a b => !decide (b < a)

def listed (config : MisuseConfig) (used : SymbolSet) (standing : Standing)
    (artifacts : List Artifact) : List String :=
  inCanonicalOrder ((artifacts.filter fun artifact =>
    artifact.standing config used = standing).map Artifact.canonical)

def transitiveUse? (config : MisuseConfig) (used : SymbolSet) (graph : DependencyGraph)
    (artifact : Artifact) : Option TransitiveUse :=
  match artifact.standing config used with
  | .usedTransitive symbols => some {
      identity := artifact.canonical, symbols,
      via := (graph.via artifact.identity).map Identity.canonical,
      path := ((graph.pathTo? artifact.identity).getD []).map Identity.canonical }
  | _ => none

def ofUse (config : MisuseConfig) (index : Index) (used : SymbolSet) (graph : DependencyGraph) :
    Misuse where
  unusedDirect := listed config used .unusedDirect index.artifacts
  usedTransitive := (index.artifacts.filterMap (transitiveUse? config used graph)).mergeSort
    fun a b => !decide (b.identity < a.identity)
  unobservable := listed config used .unobservable index.artifacts
  allowedUnused := listed config used .allowedUnused index.artifacts

def isClean (misuse : Misuse) : Bool := misuse.unusedDirect.isEmpty && misuse.usedTransitive.isEmpty

end Misuse

/-! ## As structured data -/

def TransitiveUse.ofData? (data : Data) : Option TransitiveUse := do
  let [identity, symbols, via, path] ← data.record? ["identity", "symbols", "via", "path"] | none
  let texts := Data.list? Data.text?
  return {
    identity := ← Data.required? Data.text? identity
    symbols := (← Data.required? texts symbols).map Symbol.mk
    via := ← Data.orElse? [] texts via
    path := ← Data.orElse? [] texts path }

def Misuse.ofData? (data : Data) : Option Misuse := do
  let [unusedDirect, usedTransitive, unobservable, allowedUnused] ← data.record?
    ["unused_direct", "used_transitive", "unobservable", "allowed_unused"] | none
  let texts := Data.list? Data.text?
  return {
    unusedDirect := ← Data.required? texts unusedDirect
    usedTransitive := ← Data.required? (Data.list? TransitiveUse.ofData?) usedTransitive
    unobservable := ← Data.orElse? [] texts unobservable
    allowedUnused := ← Data.orElse? [] texts allowedUnused }

def TransitiveUse.toData (use : TransitiveUse) : Data :=
  .table ([("identity", .text use.identity), ("symbols", .texts (use.symbols.map Symbol.name)),
    ("via", .texts use.via)] ++ Data.fieldUnlessEmpty "path" use.path Data.texts)

def Misuse.toData (misuse : Misuse) : Data :=
  .table [("unused_direct", .texts misuse.unusedDirect),
    ("used_transitive", .list (misuse.usedTransitive.map TransitiveUse.toData)),
    ("unobservable", .texts misuse.unobservable), ("allowed_unused", .texts misuse.allowedUnused)]

end Linkage
