import Linkage.Abi.Dump
import Linkage.Data.Shape
import Linkage.Index

/-!
The ABI report: the fingerprint of a surface, its size, and the dependencies that it exposes.

Whoever compiles against a module needs the dependencies whose types its surface names.
-/

namespace Linkage

structure ExposedDependency where
  identity : String
  symbols : List Symbol
  deriving DecidableEq, Repr

/-- The dependencies that own some symbols, by canonical identity, each with its symbols in order.
Symbols without an owner are left out. -/
def Index.owning (index : Index) (symbols : SymbolSet) : List ExposedDependency :=
  let owned := symbols.toList.filterMap fun symbol =>
    (index.ownerOf? symbol).map fun owner => (owner.canonical, symbol)
  let owners := (owned.map Prod.fst).eraseDups.mergeSort fun a b => !decide (b < a)
  owners.map fun owner =>
    ⟨owner, owned.filterMap fun entry => if entry.1 = owner then some entry.2 else none⟩

structure AbiReport where
  fingerprint : String
  typeCount : Nat
  memberCount : Nat
  exposed : List ExposedDependency
  /-- The dump of the surface, and its reduced form. They are not part of the written report. -/
  dump : String
  reduced : String
  deriving DecidableEq, Repr

namespace AbiReport

/-- The report on a surface. Without an index no dependency is exposed. -/
def ofSurface (surface : Surface) (index : Option Index) : AbiReport :=
  let dump := surface.dump
  let reduced := reduceDump dump
  { fingerprint := Sha256.ofText reduced
    typeCount := surface.types.length
    memberCount := surface.memberCount
    exposed := match index with
      | some index => index.owning surface.exposed
      | none => []
    dump
    reduced }

def exposedOfData? (data : Data) : Option ExposedDependency := do
  let [identity, symbols] ← data.record? ["identity", "symbols"] | none
  return {
    identity := ← Data.required? Data.text? identity
    symbols := (← Data.required? (Data.list? Data.text?) symbols).map Symbol.mk }

def ofData? (data : Data) : Option AbiReport := do
  let [fingerprint, types, members, exposed] ←
    data.record? ["fingerprint", "type_count", "member_count", "exposed"] | none
  return {
    fingerprint := ← Data.required? Data.text? fingerprint
    typeCount := ← Data.required? Data.natural? types
    memberCount := ← Data.required? Data.natural? members
    exposed := ← Data.orElse? [] (Data.list? exposedOfData?) exposed
    dump := ""
    reduced := "" }

def toData (report : AbiReport) : Data :=
  .table [("fingerprint", .text report.fingerprint), ("type_count", .natural report.typeCount),
    ("member_count", .natural report.memberCount),
    ("exposed", .list (report.exposed.map fun exposed => .table [
      ("identity", .text exposed.identity),
      ("symbols", .texts (exposed.symbols.map Symbol.name))]))]

end AbiReport

end Linkage
