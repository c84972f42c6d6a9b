import Linkage.Abi.Surface
import Linkage.Proofs.Ordering
import Mathlib.Data.List.Nodup

/-!
# Judging types

A type is judged by the types around it, and every verdict is kept. `Candidates.VisibleAt` says what
verdict is right, and `judge_right` that only right ones are given and kept, provided that no visible
type lies deeper than the search goes. So it does not matter in which order types are judged.
-/

namespace Linkage

namespace Candidates

variable {candidates : Candidates} {config : AbiConfig} {name outer : String} {known : Verdicts}
  {candidate : Candidate} {levels depth : Nat} {verdict : Bool}

/-- Whether a type is visible, so many types lying on the way out of it, itself included. -/
inductive VisibleAt (candidates : Candidates) (config : AbiConfig) : Nat → String → Prop
  | outermost {name : String} {candidate : Candidate}
      (found : candidates.byName[name]? = some candidate)
      (isOpen : candidate.isOpen config = true) (alone : candidate.nesting = none) :
      VisibleAt candidates config 1 name
  | nested {name outer : String} {candidate : Candidate} {depth : Nat}
      (found : candidates.byName[name]? = some candidate)
      (isOpen : candidate.isOpen config = true)
      (within : candidate.nesting = some ⟨true, some outer⟩)
      (around : VisibleAt candidates config depth outer) :
      VisibleAt candidates config (depth + 1) name

def Visible (candidates : Candidates) (config : AbiConfig) (name : String) : Prop :=
  ∃ depth, candidates.VisibleAt config depth name

theorem visibleAt_iff (found : candidates.byName[name]? = some candidate) :
    candidates.VisibleAt config depth name ↔ candidate.isOpen config = true ∧
      (candidate.nesting = none ∧ depth = 1 ∨
        ∃ outer levels, candidate.nesting = some ⟨true, some outer⟩ ∧
          candidates.VisibleAt config levels outer ∧ depth = levels + 1) := by
  constructor
  · rintro (⟨found', isOpen, alone⟩ | ⟨found', isOpen, within, around⟩)
    · cases found.symm.trans found'
      exact ⟨isOpen, .inl ⟨alone, rfl⟩⟩
    · cases found.symm.trans found'
      exact ⟨isOpen, .inr ⟨_, _, within, around, rfl⟩⟩
  · rintro ⟨isOpen, ⟨alone, rfl⟩ | ⟨outer, levels, within, around, rfl⟩⟩
    · exact .outermost found isOpen alone
    · exact .nested found isOpen within around

theorem VisibleAt.found (visible : candidates.VisibleAt config depth name) :
    ∃ candidate, candidates.byName[name]? = some candidate := by
  cases visible with
  | outermost found => exact ⟨_, found⟩
  | nested found => exact ⟨_, found⟩

theorem VisibleAt.pos (visible : candidates.VisibleAt config depth name) : 0 < depth := by
  cases visible <;> omega

theorem VisibleAt.unique {other : Nat} (visible : candidates.VisibleAt config depth name)
    (again : candidates.VisibleAt config other name) : depth = other := by
  induction visible generalizing other with
  | outermost found _ alone =>
    obtain ⟨-, ⟨-, rfl⟩ | ⟨_, _, within, -⟩⟩ := (visibleAt_iff found).mp again
    · rfl
    · simp [alone] at within
  | nested found _ within _ ih =>
    obtain ⟨-, ⟨alone, -⟩ | ⟨_, _, within', around, rfl⟩⟩ := (visibleAt_iff found).mp again
    · simp [within] at alone
    · rw [within] at within'
      cases within'
      rw [ih around]

/-! ## Judging one type -/

def Sound (candidates : Candidates) (config : AbiConfig) (known : Verdicts) : Prop :=
  ∀ name verdict, known[name]? = some verdict → (verdict = true ↔ candidates.Visible config name)

theorem sound_empty : candidates.Sound config ∅ := by
  intro name verdict found
  simp at found

def Right (candidates : Candidates) (config : AbiConfig) (name : String)
    (result : Bool × Verdicts) : Prop :=
  (result.1 = true ↔ candidates.Visible config name) ∧ candidates.Sound config result.2

theorem Right.keep {result : Bool × Verdicts} (right : candidates.Right config name result) :
    candidates.Right config name (keepVerdict name result) := by
  refine ⟨right.1, fun other verdict found => ?_⟩
  simp only [keepVerdict, Std.HashMap.getElem?_insert] at found
  split at found
  · rename_i same
    cases found
    rw [← eq_of_beq same]
    exact right.1
  · exact right.2 other verdict found

theorem right_of_invisible (sound : candidates.Sound config known)
    (invisible : ¬ candidates.Visible config name) :
    candidates.Right config name (false, known) :=
  ⟨⟨nofun, fun visible => absurd visible invisible⟩, sound⟩

theorem judgeWith_right (sound : candidates.Sound config known)
    (found : candidates.byName[name]? = some candidate)
    {judgeOuter : String → Verdicts → Bool × Verdicts}
    (judged : ∀ outer, candidate.isOpen config = true →
      candidate.nesting = some ⟨true, some outer⟩ →
      candidates.Right config outer (judgeOuter outer known)) :
    candidates.Right config name (candidate.judgeWith config judgeOuter known) := by
  unfold Candidate.judgeWith
  by_cases isOpen : candidate.isOpen config = true
  · rw [if_pos isOpen]
    split
    · rename_i alone
      exact ⟨iff_of_true rfl ⟨1, .outermost found isOpen alone⟩, sound⟩
    · rename_i outer within
      obtain ⟨right, sound⟩ := judged outer isOpen within
      refine ⟨right.trans ?_, sound⟩
      constructor
      · rintro ⟨depth, around⟩
        exact ⟨depth + 1, .nested found isOpen within around⟩
      · rintro ⟨depth, visible⟩
        obtain ⟨-, ⟨alone, -⟩ | ⟨outer, depth, within', around, -⟩⟩ :=
          (visibleAt_iff found).mp visible
        · simp [within] at alone
        · rw [within] at within'
          cases within'
          exact ⟨depth, around⟩
    · rename_i closed own
      apply right_of_invisible sound
      rintro ⟨depth, visible⟩
      obtain ⟨-, ⟨alone, -⟩ | ⟨outer, depth, within, -⟩⟩ := (visibleAt_iff found).mp visible
      · simp [own] at alone
      · rw [own] at within
        cases within
        exact closed outer rfl
  · rw [if_neg isOpen]
    apply right_of_invisible sound
    rintro ⟨depth, visible⟩
    exact isOpen ((visibleAt_iff found).mp visible).1

theorem judge_right (sound : candidates.Sound config known)
    (near : ∀ depth, candidates.VisibleAt config depth name → depth ≤ levels) :
    candidates.Right config name (candidates.judge config levels name known) := by
  induction levels generalizing name known with
  | zero =>
    have invisible : ¬ candidates.Visible config name := by
      rintro ⟨depth, visible⟩
      have := near depth visible
      have := visible.pos
      omega
    rw [judge]
    split
    · rename_i verdict found
      exact ⟨sound name verdict found, sound⟩
    · exact right_of_invisible sound invisible
    · exact (right_of_invisible sound invisible).keep
  | succ levels ih =>
    rw [judge]
    split
    · rename_i verdict found
      exact ⟨sound name verdict found, sound⟩
    · rename_i missing
      apply right_of_invisible sound
      rintro ⟨depth, visible⟩
      obtain ⟨candidate, found⟩ := visible.found
      simp [missing] at found
    · rename_i candidate unknown found
      apply Right.keep
      apply judgeWith_right sound found
      intro outer isOpen within
      apply ih sound
      intro depth around
      have := near (depth + 1) (.nested found isOpen within around)
      omega

/-! ## Judging one type after the other -/

/-- Whether no visible type lies deeper than the search goes. -/
def WithinReach (candidates : Candidates) (config : AbiConfig) : Prop :=
  ∀ name depth, candidates.VisibleAt config depth name → depth ≤ maxNesting

variable {order : List String} {symbol : Symbol} {type : VisibleType}

theorem visibleNames_eq [DecidablePred (candidates.Visible config)]
    (reach : candidates.WithinReach config) (sound : candidates.Sound config known) :
    candidates.visibleNames config order known =
      order.filter fun name => decide (candidates.Visible config name) := by
  induction order generalizing known with
  | nil => rfl
  | cons name names ih =>
    obtain ⟨right, sound⟩ := judge_right sound (reach name)
    change (if (candidates.judge config maxNesting name known).1 then _ else _) = _
    rw [ih sound, List.filter_cons]
    simp only [right, decide_eq_true_eq]

theorem mem_surfaceInOrder_found
    (listed : type ∈ (candidates.surfaceInOrder config order).types) :
    ∃ (name : String) (candidate : Candidate),
      candidates.byName[name]? = some candidate ∧ candidate.type = type := by
  simp only [surfaceInOrder, List.mem_mergeSort, List.mem_filterMap, Option.map_eq_some_iff]
    at listed
  obtain ⟨name, -, candidate, found, rfl⟩ := listed
  exact ⟨name, candidate, found, rfl⟩

theorem mem_surfaceInOrder (reach : candidates.WithinReach config) :
    type ∈ (candidates.surfaceInOrder config order).types ↔
      ∃ name ∈ order, candidates.Visible config name ∧
        ∃ candidate, candidates.byName[name]? = some candidate ∧ candidate.type = type := by
  classical
  rw [surfaceInOrder, visibleNames_eq reach sound_empty]
  simp [and_assoc]

theorem surfaceInOrder_ascending (reach : candidates.WithinReach config) (once : order.Nodup)
    (distinct : ∀ {name name' : String} {candidate candidate' : Candidate},
      candidates.byName[name]? = some candidate → candidates.byName[name']? = some candidate' →
      candidate.type.symbol = candidate'.type.symbol → name = name') :
    (candidates.surfaceInOrder config order).types.Pairwise fun a b => a.symbol < b.symbol := by
  classical
  have sorted := mergeSort_by_symbol VisibleType.symbol
    ((candidates.visibleNames config order ∅).filterMap fun name =>
      candidates.byName[name]?.map Candidate.type)
  have different : ((candidates.surfaceInOrder config order).types.map VisibleType.symbol).Nodup := by
    rw [surfaceInOrder, ((List.mergeSort_perm _ _).map _).nodup_iff,
      visibleNames_eq reach sound_empty, List.map_filterMap]
    apply (once.filter _).filterMap
    intro name name' symbol symbol_eq symbol_eq'
    simp only [Option.map_map, Option.mem_def, Option.map_eq_some_iff] at symbol_eq symbol_eq'
    obtain ⟨candidate, found, rfl⟩ := symbol_eq
    obtain ⟨candidate', found', same⟩ := symbol_eq'
    exact distinct found found' same.symm
  refine (sorted.and (List.pairwise_map.mp different)).imp ?_
  rintro a b ⟨notAbove, other⟩
  by_contra notBelow
  exact other (Symbol.eq_of_not_lt notBelow notAbove)

end Candidates

end Linkage
