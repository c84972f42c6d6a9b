import Linkage.Module.ReportFiles
import Linkage.Proofs.RootReports

/-!
# Outcomes in another order

Root reports are sorted by module and variant, and the sort is stable: of outcomes that share both,
the one that was given first stays first. So the order of the outcomes does not matter exactly if
those that share module and variant are reported alike: `aggregate_of_perm_iff`.
-/

namespace Linkage

variable {α : Type} {outcomes outcomes' : List ModuleOutcome}
  {entries entries' : List (RootEntry α)} {status : ModuleReport → RootStatus α}

def RootEntry.key (entry : RootEntry α) : String × String := (entry.modulePath, entry.variant)

def ModuleOutcome.ReportedAlike (a b : ModuleOutcome) : Prop :=
  a.misuseEntry = b.misuseEntry ∧ a.abiEntry = b.abiEntry

open ModuleOutcome

theorem RootReport.ofEntries_sorted (sorted : entries.Pairwise fun a b => a.inOrder b) :
    ofEntries entries = ⟨entries⟩ :=
  congrArg mk (List.mergeSort_of_pairwise sorted)

theorem ofEntries_of_perm (perm : entries.Perm entries')
    (alike : ∀ a ∈ entries, ∀ b ∈ entries, a.key = b.key → a = b) :
    RootReport.ofEntries entries = RootReport.ofEntries entries' :=
  congrArg RootReport.mk (mergeSort_of_perm RootEntry.key perm alike)

theorem ofEntries_rootEntry_of_perm (perm : outcomes.Perm outcomes')
    (alike : ∀ a ∈ outcomes, ∀ b ∈ outcomes, a.key = b.key →
      rootEntry status a = rootEntry status b) :
    RootReport.ofEntries (outcomes.map (rootEntry status)) =
      RootReport.ofEntries (outcomes'.map (rootEntry status)) := by
  apply ofEntries_of_perm (perm.map _)
  intro entry listed entry' listed' same
  obtain ⟨a, member, rfl⟩ := List.mem_map.mp listed
  obtain ⟨b, member', rfl⟩ := List.mem_map.mp listed'
  exact alike a member b member' same

theorem filter_ofEntries (key : String × String) :
    (RootReport.ofEntries (outcomes.map (rootEntry status))).entries.filter
        (fun entry => entry.key = key) =
      (outcomes.filter fun outcome => outcome.key = key).map (rootEntry status) := by
  rw [ofEntries_rootEntry, ← inReportOrder_stable key, List.filter_map]
  rfl

theorem rootEntry_eq_of_swap {a b : ModuleOutcome} (same : a.key = b.key)
    (swapped : RootReport.ofEntries ((a :: b :: outcomes).map (rootEntry status)) =
      RootReport.ofEntries ((b :: a :: outcomes).map (rootEntry status))) :
    rootEntry status a = rootEntry status b := by
  have listed := congrArg (fun report => report.entries.filter fun entry => entry.key = a.key) swapped
  simp only [filter_ofEntries] at listed
  simp only [List.filter_cons, same, decide_true, if_true, List.map_cons] at listed
  exact (List.cons.inj listed).1

theorem aggregate_eq_iff :
    aggregate outcomes = aggregate outcomes' ↔ outcomes.length = outcomes'.length ∧
      RootReports.ofOutcomes outcomes = RootReports.ofOutcomes outcomes' := by
  constructor
  · intro same
    have runs : EStateM.Result.ok (RootReports.ofOutcomes outcomes)
          ([] ++ [Event.reportsAggregated outcomes.length]) =
        EStateM.Result.ok (RootReports.ofOutcomes outcomes')
          ([] ++ [Event.reportsAggregated outcomes'.length]) := congrFun same []
    injection runs with reports events
    exact ⟨by simpa using events, reports⟩
  · rintro ⟨length, reports⟩
    rw [aggregate, aggregate, length, reports]

/-- Root reports are the same for every order of the outcomes exactly if outcomes that share module
and variant are reported alike. -/
theorem aggregate_of_perm_iff (outcomes : List ModuleOutcome) :
    (∀ outcomes' : List ModuleOutcome, outcomes'.Perm outcomes →
        aggregate outcomes' = aggregate outcomes) ↔
      ∀ a ∈ outcomes, ∀ b ∈ outcomes, a.key = b.key → a.ReportedAlike b := by
  constructor
  · intro unmoved a member b member' same
    by_cases one : a = b
    · exact one ▸ ⟨rfl, rfl⟩
    · -- Two different outcomes can both come first, in either order.
      obtain ⟨others, front⟩ : ∃ others, outcomes.Perm (a :: b :: others) := by
        refine ⟨(outcomes.erase a).erase b, (List.perm_cons_erase member).trans (.cons a ?_)⟩
        exact List.perm_cons_erase ((List.mem_erase_of_ne (Ne.symm one)).mpr member')
      have first := unmoved (a :: b :: others) front.symm
      have second := unmoved (b :: a :: others) ((List.Perm.swap a b others).trans front.symm)
      have reports := (aggregate_eq_iff.mp (first.trans second.symm)).2
      exact ⟨rootEntry_eq_of_swap same (congrArg RootReports.misuse reports),
        rootEntry_eq_of_swap same (congrArg RootReports.abi reports)⟩
  · intro alike outcomes' perm
    refine aggregate_eq_iff.mpr ⟨perm.length_eq, ?_⟩
    have misuse := ofEntries_rootEntry_of_perm perm.symm fun a member b member' same =>
      (alike a member b member' same).1
    have abi := ofEntries_rootEntry_of_perm perm.symm fun a member b member' same =>
      (alike a member b member' same).2
    exact congrArg₂ RootReports.mk misuse.symm abi.symm

/-! ## A variant that was skipped twice -/

namespace SkippedTwice

def first : ModuleOutcome := .skipped ":a" "main" "x"

def second : ModuleOutcome := .skipped ":a" "main" "y"

theorem ofOutcomes_eq :
    RootReports.ofOutcomes [first, second] =
      ⟨⟨[first.misuseEntry, second.misuseEntry]⟩, ⟨[first.abiEntry, second.abiEntry]⟩⟩ ∧
    RootReports.ofOutcomes [second, first] =
      ⟨⟨[second.misuseEntry, first.misuseEntry]⟩, ⟨[second.abiEntry, first.abiEntry]⟩⟩ :=
  ⟨congrArg₂ RootReports.mk (RootReport.ofEntries_sorted (by decide))
      (RootReport.ofEntries_sorted (by decide)),
    congrArg₂ RootReports.mk (RootReport.ofEntries_sorted (by decide))
      (RootReport.ofEntries_sorted (by decide))⟩

end SkippedTwice

open SkippedTwice in
/-- Outcomes of one variant that differ are reported in the order in which they are given. -/
theorem aggregate_keeps_order : [second, first].Perm [first, second] ∧
    ∃ reports reports' later, aggregate [first, second] [] = .ok reports later ∧
      aggregate [second, first] [] = .ok reports' later ∧
      reports.misuse.entries.map RootEntry.status = [.skipped "x", .skipped "y"] ∧
      reports'.misuse.entries.map RootEntry.status = [.skipped "y", .skipped "x"] ∧
      reports.files ≠ reports'.files := by
  refine ⟨.swap first second [], _, _, _, rfl, rfl, ?_⟩
  rw [ofOutcomes_eq.1, ofOutcomes_eq.2]
  exact ⟨rfl, rfl, by decide +kernel⟩

end Linkage
