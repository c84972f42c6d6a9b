import Linkage.Module.RootReport
import Linkage.Proofs.Ordering

/-!
# Root reports

Each root report is sorted for itself, but by what outcomes are called and not by what is said about
them. So both list the outcomes in the same order, and the entries at any place of the two belong to
one outcome: `aggregate_aligned`.
-/

namespace Linkage

variable {α : Type} {outcome : ModuleOutcome} {outcomes : List ModuleOutcome}

def RootReport.ByModule (report : RootReport α) : Prop :=
  report.entries.Pairwise fun a b =>
    a.modulePath < b.modulePath ∨ a.modulePath = b.modulePath ∧ a.variant ≤ b.variant

namespace ModuleOutcome

def key (outcome : ModuleOutcome) : String × String := (outcome.modulePath, outcome.variant)

structure Enters (outcome : ModuleOutcome) (misuse : RootEntry Misuse) (abi : RootEntry AbiReport) :
    Prop where
  misuse_key : (misuse.modulePath, misuse.variant) = outcome.key
  abi_key : (abi.modulePath, abi.variant) = outcome.key
  misuse_skipped : ∀ reason, misuse.status = .skipped reason ↔
    outcome = .skipped outcome.modulePath outcome.variant reason
  abi_skipped : ∀ reason, abi.status = .skipped reason ↔
    outcome = .skipped outcome.modulePath outcome.variant reason
  misuse_analyzed : ∀ found, misuse.status = .analyzed found ↔
    ∃ report, outcome = .analyzed report ∧ report.misuse = found
  abi_analyzed : ∀ found, abi.status = .analyzed found ↔
    ∃ report, outcome = .analyzed report ∧ report.abi = some found
  misuse_applies : misuse.status ≠ .notApplicable
  abi_notApplicable : abi.status = .notApplicable ↔
    ∃ report, outcome = .analyzed report ∧ report.abi = none

def misuseEntry : ModuleOutcome → RootEntry Misuse :=
  rootEntry fun report => .analyzed report.misuse

def abiEntry : ModuleOutcome → RootEntry AbiReport :=
  rootEntry fun report => match report.abi with
    | some abi => .analyzed abi
    | none => .notApplicable

theorem enters (outcome : ModuleOutcome) : outcome.Enters outcome.misuseEntry outcome.abiEntry := by
  cases outcome with
  | skipped modulePath variant reason =>
    constructor <;> simp [misuseEntry, abiEntry, rootEntry, key, ModuleOutcome.modulePath,
      ModuleOutcome.variant]
  | analyzed report =>
    cases given : report.abi <;>
      constructor <;> simp [misuseEntry, abiEntry, rootEntry, key, given]

/-- Outcomes by module, then variant, then as given. -/
def inReportOrder (outcomes : List ModuleOutcome) : List ModuleOutcome :=
  outcomes.mergeSort fun a b => inPairOrder a.key b.key

theorem inReportOrder_perm : (inReportOrder outcomes).Perm outcomes := List.mergeSort_perm _ _

theorem inReportOrder_stable (key : String × String) :
    (inReportOrder outcomes).filter (fun outcome => outcome.key = key) =
      outcomes.filter fun outcome => outcome.key = key := by
  apply filter_mergeSort
  · intro a b c first second
    exact inPairOrder_trans first second
  · intro a b
    exact inPairOrder_total
  · intro a b first second
    rw [decide_eq_true_eq] at first second
    rw [first, second, inPairOrder_iff]
    exact .inr ⟨rfl, String.le_refl _⟩

end ModuleOutcome

open ModuleOutcome

theorem ofEntries_rootEntry (status : ModuleReport → RootStatus α) :
    (RootReport.ofEntries (outcomes.map (rootEntry status))).entries =
      (inReportOrder outcomes).map (rootEntry status) := by
  -- Entries are compared by what outcomes are called, never by their status.
  have unmoved : ∀ a ∈ outcomes, ∀ b ∈ outcomes, inPairOrder a.key b.key =
      (rootEntry status a).inOrder (rootEntry status b) := fun _ _ _ _ => rfl
  exact (List.map_mergeSort unmoved).symm

theorem byModule_ofEntries (status : ModuleReport → RootStatus α) :
    (RootReport.ofEntries (outcomes.map (rootEntry status))).ByModule := by
  rw [RootReport.ByModule, ofEntries_rootEntry, List.pairwise_map]
  refine (mergeSort_by_pair key outcomes).imp ?_
  intro a b ordered
  exact inPairOrder_iff.mp ordered

theorem misuse_entries :
    (RootReports.ofOutcomes outcomes).misuse.entries = (inReportOrder outcomes).map misuseEntry :=
  ofEntries_rootEntry _

theorem abi_entries :
    (RootReports.ofOutcomes outcomes).abi.entries = (inReportOrder outcomes).map abiEntry :=
  ofEntries_rootEntry _

/-- The root reports on some outcomes have an entry each for every outcome, by module, then variant,
then as given. The entries at one place of both belong to one outcome. -/
theorem aggregate_aligned (outcomes : List ModuleOutcome) (events : List Event) :
    ∃ reports later, aggregate outcomes events = .ok reports later ∧
      reports.misuse.ByModule ∧ reports.abi.ByModule ∧
      ∃ listed : List ModuleOutcome, listed.Perm outcomes ∧
        (∀ key : String × String, listed.filter (fun outcome => outcome.key = key) =
          outcomes.filter fun outcome => outcome.key = key) ∧
        reports.misuse.entries.length = listed.length ∧
        reports.abi.entries.length = listed.length ∧
        ∀ (place : Nat) (outcome : ModuleOutcome), listed[place]? = some outcome → ∃ misuse abi,
          reports.misuse.entries[place]? = some misuse ∧
          reports.abi.entries[place]? = some abi ∧ outcome.Enters misuse abi := by
  refine ⟨RootReports.ofOutcomes outcomes, _, rfl, byModule_ofEntries _, byModule_ofEntries _,
    inReportOrder outcomes, inReportOrder_perm, inReportOrder_stable, ?_, ?_, ?_⟩
  · rw [misuse_entries, List.length_map]
  · rw [abi_entries, List.length_map]
  · intro place outcome found
    refine ⟨outcome.misuseEntry, outcome.abiEntry, ?_, ?_, outcome.enters⟩
    · rw [misuse_entries, List.getElem?_map, found, Option.map_some]
    · rw [abi_entries, List.getElem?_map, found, Option.map_some]

end Linkage
