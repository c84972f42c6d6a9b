import Linkage.Module.RootReport

/-!
The files that reports are written to, in the order in which they are written.
-/

namespace Linkage

structure ReportFile where
  name : String
  text : String
  deriving DecidableEq, Repr

namespace ReportFile

def compactAndPretty (stem : String) (data : Data) : List ReportFile :=
  [⟨stem ++ ".json", Json.compact data⟩, ⟨stem ++ "-pretty.json", Json.pretty data⟩]

end ReportFile

def AbiReport.files (report : AbiReport) : List ReportFile :=
  [⟨"abi-dump.txt", report.dump⟩, ⟨"abi-reduced.txt", report.reduced⟩,
    ⟨"abi.json", Json.pretty report.toData⟩]

def ModuleReport.files (report : ModuleReport) : List ReportFile :=
  [⟨"used-symbols.txt", Text.ofLines (report.usedSymbols.toList.map Symbol.name)⟩]
    ++ ReportFile.compactAndPretty "artifacts-compile" report.compileArtifacts.toData
    ++ ReportFile.compactAndPretty "artifacts-runtime" report.runtimeArtifacts.toData
    ++ ReportFile.compactAndPretty "misuse" report.misuse.toData
    ++ [⟨"misuse.txt", report.misuseSummary⟩]
    ++ match report.abi with
      | some abi => abi.files
      | none => []

def ModuleOutcome.files (outcome : ModuleOutcome) : List ReportFile :=
  ⟨"outcome.json", Json.pretty outcome.toData⟩ :: match outcome with
    | analyzed report => report.files
    | skipped .. => []

def RootReports.files (reports : RootReports) : List ReportFile :=
  ReportFile.compactAndPretty "misuse" (reports.misuse.toData Misuse.toData)
    ++ ReportFile.compactAndPretty "abi" (reports.abi.toData AbiReport.toData)

end Linkage
