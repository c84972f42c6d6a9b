import Linkage.Abi.Report
import Linkage.ArtifactsReport
import Linkage.Json.Printer
import Linkage.Misuse.Summary
import Linkage.Module.Manifest

/-!
Outcomes: what came of analyzing one variant of a module.

A module that was skipped is told apart from one that was analyzed and uses nothing. Outcomes are
written as JSON and read back, all but the text forms of the surface.
-/

namespace Linkage

structure ModuleReport where
  modulePath : String
  variant : String
  flavor : Flavor
  usedSymbols : SymbolSet
  compileArtifacts : ArtifactsReport
  runtimeArtifacts : ArtifactsReport
  misuse : Misuse
  /-- Missing for modules without a binary interface. -/
  abi : Option AbiReport
  deriving DecidableEq, Repr

namespace ModuleReport

def title (report : ModuleReport) : String := variantTitle report.modulePath report.variant

def misuseSummary (report : ModuleReport) : String := report.misuse.summary report.title

def fields (report : ModuleReport) : List (String × Data) :=
  [("module", .text report.modulePath), ("variant", .text report.variant),
    ("flavor", .text report.flavor.name),
    ("used_symbols", .texts (report.usedSymbols.toList.map Symbol.name)),
    ("compile_artifacts", report.compileArtifacts.toData),
    ("runtime_artifacts", report.runtimeArtifacts.toData), ("misuse", report.misuse.toData)]
  ++ match report.abi with
    | some abi => [("abi", abi.toData)]
    | none => []

def ofData? (origin : Origin) (data : Data) : Option ModuleReport := do
  let [modulePath, variant, flavor, used, compile, runtime, misuse, abi] ← data.record?
    ["module", "variant", "flavor", "used_symbols", "compile_artifacts", "runtime_artifacts",
     "misuse", "abi"] | none
  let abiOf : Data → Option (Option AbiReport)
    | .null => some none
    | data => (AbiReport.ofData? data).map some
  return {
    modulePath := ← Data.required? Data.text? modulePath
    variant := ← Data.required? Data.text? variant
    flavor := ← Data.required? (Flavor.ofData? origin) flavor
    usedSymbols :=
      SymbolSet.ofList ((← Data.required? (Data.list? Data.text?) used).map Symbol.mk)
    compileArtifacts := ← Data.required? (ArtifactsReport.ofData? origin) compile
    runtimeArtifacts := ← Data.required? (ArtifactsReport.ofData? origin) runtime
    misuse := ← Data.required? Misuse.ofData? misuse
    abi := ← Data.orElse? none abiOf abi }

end ModuleReport

inductive ModuleOutcome
  | analyzed (report : ModuleReport)
  | skipped (modulePath variant reason : String)
  deriving DecidableEq, Repr

namespace ModuleOutcome

def modulePath : ModuleOutcome → String
  | analyzed report => report.modulePath
  | skipped modulePath _ _ => modulePath

def variant : ModuleOutcome → String
  | analyzed report => report.variant
  | skipped _ variant _ => variant

def toData : ModuleOutcome → Data
  | analyzed report => .table (("status", .text "analyzed") :: report.fields)
  | skipped modulePath variant reason =>
      .table [("status", .text "skipped"), ("module", .text modulePath),
        ("variant", .text variant), ("reason", .text reason)]

def ofData? (data : Data) : Option ModuleOutcome := do
  let data ← data.kept? .json 0
  match ← data.tagged? .json "status" ["analyzed", "skipped"] with
  | ("analyzed", fields) => return analyzed (← ModuleReport.ofData? .kept fields)
  | (_, fields) =>
    let [modulePath, variant, reason] ← fields.record? ["module", "variant", "reason"] | none
    return skipped (← Data.required? Data.text? modulePath) (← Data.required? Data.text? variant)
      (← Data.required? Data.text? reason)

def ofJson? (text : String) : Option ModuleOutcome := (Json.read? text).bind ofData?

def load (disk : FileSystem) (path : Path) : Except Failure ModuleOutcome := do
  match ofJson? (← disk.readText path) with
  | some outcome => return outcome
  | none => throw .badManifest

end ModuleOutcome

end Linkage
