import Linkage.Module.Outcome
import Linkage.Run

/-!
Root reports: the outcomes of many modules, merged into one report on misuse and one on binary
interfaces. Both list every outcome, by module and then variant.
-/

namespace Linkage

inductive RootStatus (α : Type)
  | analyzed (report : α)
  | skipped (reason : String)
  /-- The analysis is not for modules of this flavor. -/
  | notApplicable
  deriving DecidableEq, Repr

structure RootEntry (α : Type) where
  modulePath : String
  variant : String
  status : RootStatus α
  deriving DecidableEq, Repr

structure RootReport (α : Type) where
  entries : List (RootEntry α)
  deriving DecidableEq, Repr

variable {α : Type}

namespace RootEntry

def inOrder (a b : RootEntry α) : Bool :=
  a.modulePath < b.modulePath
    || (a.modulePath = b.modulePath && !decide (b.variant < a.variant))

def toData (encode : α → Data) (entry : RootEntry α) : Data :=
  .table ([("module", .text entry.modulePath), ("variant", .text entry.variant)]
    ++ match entry.status with
      | .analyzed report => [("status", .text "analyzed"), ("report", encode report)]
      | .skipped reason => [("status", .text "skipped"), ("reason", .text reason)]
      | .notApplicable => [("status", .text "not_applicable")])

end RootEntry

namespace RootReport

def ofEntries (entries : List (RootEntry α)) : RootReport α := ⟨entries.mergeSort RootEntry.inOrder⟩

def analyzed (report : RootReport α) : List (RootEntry α × α) :=
  report.entries.filterMap fun entry =>
    match entry.status with
    | .analyzed report => some (entry, report)
    | _ => none

def skippedCount (report : RootReport α) : Nat :=
  report.entries.countP fun entry =>
    match entry.status with
    | .skipped _ => true
    | _ => false

def toData (encode : α → Data) (report : RootReport α) : Data :=
  .table [("modules", .list (report.entries.map (RootEntry.toData encode)))]

end RootReport

namespace ModuleOutcome

def rootEntry (status : ModuleReport → RootStatus α) (outcome : ModuleOutcome) : RootEntry α where
  modulePath := outcome.modulePath
  variant := outcome.variant
  status := match outcome with
    | .analyzed report => status report
    | .skipped _ _ reason => .skipped reason

end ModuleOutcome

structure RootReports where
  misuse : RootReport Misuse
  abi : RootReport AbiReport
  deriving DecidableEq, Repr

namespace RootReports

def ofOutcomes (outcomes : List ModuleOutcome) : RootReports where
  misuse := .ofEntries (outcomes.map (ModuleOutcome.rootEntry fun report =>
    .analyzed report.misuse))
  abi := .ofEntries (outcomes.map (ModuleOutcome.rootEntry fun report =>
    match report.abi with
    | some abi => .analyzed abi
    | none => .notApplicable))

def misuseCount (reports : RootReports) : Nat :=
  reports.misuse.analyzed.countP fun entry => !entry.2.isClean

end RootReports

def aggregate (outcomes : List ModuleOutcome) : Run RootReports := do
  note (.reportsAggregated outcomes.length)
  return RootReports.ofOutcomes outcomes

end Linkage
