import Linkage.Run
import Mathlib.Data.List.Forall2
import Mathlib.Data.List.Perm.Basic

/-!
# What runs come to

What a run comes to does not depend on what was reported before it. `Run.HasResult` says so, and
gives the result as a computation without reports; a run of several parts has the result of the
parts put together.
-/

namespace Linkage

section Results

variable {ε ε' α β : Type} {result : Except ε α} {value : α}

theorem bind_eq_ok {next : α → Except ε β} {final : β} :
    (result >>= next) = .ok final ↔ ∃ value, result = .ok value ∧ next value = .ok final := by
  cases result with
  | error fault => exact ⟨nofun, nofun⟩
  | ok value =>
    constructor
    · exact fun done => ⟨value, rfl, done⟩
    · rintro ⟨_, ⟨⟩, done⟩
      exact done

theorem bind_eq_error {next : α → Except ε β} {fault : ε} :
    (result >>= next) = .error fault ↔
      result = .error fault ∨ ∃ value, result = .ok value ∧ next value = .error fault := by
  cases result with
  | error other =>
    constructor
    · rintro ⟨⟩
      exact .inl rfl
    · rintro (⟨⟨⟩⟩ | ⟨_, ⟨⟩, _⟩)
      rfl
  | ok value =>
    constructor
    · exact fun failed => .inr ⟨value, rfl, failed⟩
    · rintro (⟨⟨⟩⟩ | ⟨_, ⟨⟩, failed⟩)
      exact failed

theorem pure_eq_ok {final : α} : (pure value : Except ε α) = .ok final ↔ value = final :=
  ⟨fun | rfl => rfl, fun | rfl => rfl⟩

theorem check_eq_ok {condition : Prop} [Decidable condition] {fault : ε}
    {next : Unit → Except ε α} :
    (if condition then throw fault >>= next else next ()) = .ok value ↔
      ¬ condition ∧ next () = .ok value := by
  by_cases met : condition
  · rw [if_pos met]
    exact ⟨nofun, fun ⟨unmet, _⟩ => absurd met unmet⟩
  · rw [if_neg met]
    exact (and_iff_right met).symm

theorem check_eq_error {condition : Prop} [Decidable condition] {fault found : ε}
    {next : Unit → Except ε α} :
    (if condition then throw fault >>= next else next ()) = .error found ↔
      condition ∧ found = fault ∨ ¬ condition ∧ next () = .error found := by
  by_cases met : condition
  · rw [if_pos met]
    constructor
    · rintro ⟨⟩
      exact .inl ⟨met, rfl⟩
    · rintro (⟨-, rfl⟩ | ⟨unmet, -⟩)
      · rfl
      · exact absurd met unmet
  · rw [if_neg met]
    constructor
    · exact fun failed => .inr ⟨met, failed⟩
    · rintro (⟨met', -⟩ | ⟨-, failed⟩)
      · exact absurd met' met
      · exact failed

theorem map_eq_ok {f : α → β} {final : β} :
    f <$> result = .ok final ↔ ∃ value, result = .ok value ∧ f value = final := by
  cases result with
  | error fault => exact ⟨nofun, nofun⟩
  | ok other =>
    constructor
    · exact fun done => ⟨other, rfl, Except.ok.inj done⟩
    · rintro ⟨_, ⟨⟩, rfl⟩
      rfl

theorem mapError_eq_ok {f : ε → ε'} : result.mapError f = .ok value ↔ result = .ok value := by
  cases result with
  | error fault => exact ⟨nofun, nofun⟩
  | ok other => exact ⟨fun | rfl => rfl, fun | rfl => rfl⟩

theorem mapM_eq_ok {f : α → Except ε β} {list : List α} {results : List β} :
    list.mapM f = .ok results ↔
      List.Forall₂ (fun item result => f item = .ok result) list results := by
  induction list generalizing results with
  | nil =>
    rw [List.mapM_nil, pure_eq_ok, List.forall₂_nil_left_iff]
    exact eq_comm
  | cons first rest ih =>
    rw [List.mapM_cons, bind_eq_ok]
    constructor
    · rintro ⟨head, opened, success⟩
      obtain ⟨tail, others, done⟩ := bind_eq_ok.mp success
      cases done
      exact .cons opened (ih.mp others)
    · rintro (_ | ⟨opened, others⟩)
      exact ⟨_, opened, bind_eq_ok.mpr ⟨_, ih.mpr others, rfl⟩⟩

theorem mapM_succeeds {f : α → Except ε β} {list : List α} :
    (∃ results, list.mapM f = .ok results) ↔ ∀ item ∈ list, ∃ result, f item = .ok result := by
  simp only [mapM_eq_ok]
  induction list with
  | nil => simp
  | cons first rest ih =>
    rw [List.forall_mem_cons, ← ih]
    constructor
    · rintro ⟨_, related⟩
      cases related with
      | cons opened others => exact ⟨⟨_, opened⟩, ⟨_, others⟩⟩
    · rintro ⟨⟨_, opened⟩, ⟨_, others⟩⟩
      exact ⟨_, .cons opened others⟩

theorem mem_of_mapM {f : α → Except ε β} {list : List α} {results : List β}
    (success : list.mapM f = .ok results) {found : β} :
    found ∈ results ↔ ∃ item ∈ list, f item = .ok found := by
  have related := mapM_eq_ok.mp success
  clear success
  induction related with
  | nil => simp
  | @cons item result list results opened _ ih =>
    simp only [List.mem_cons, ih]
    constructor
    · rintro (rfl | ⟨item', member, opened'⟩)
      · exact ⟨item, .inl rfl, opened⟩
      · exact ⟨item', .inr member, opened'⟩
    · rintro ⟨item', rfl | member, opened'⟩
      · rw [opened] at opened'
        exact .inl (Except.ok.inj opened').symm
      · exact .inr ⟨item', member, opened'⟩

theorem mapM_perm {f : α → Except ε β} {list list' : List α} {results : List β}
    (same : list.Perm list') (read : list.mapM f = .ok results) :
    ∃ results', list'.mapM f = .ok results' ∧ results.Perm results' := by
  obtain ⟨results', read', same'⟩ := List.perm_comp_forall₂ same.symm (mapM_eq_ok.mp read)
  exact ⟨results', mapM_eq_ok.mpr read', same'.symm⟩

theorem foldlM_succeeds {σ : Type} {step : σ → α → Except ε σ} {accepts : α → Prop}
    (accepted : ∀ state item, (∃ next, step state item = .ok next) ↔ accepts item) {list : List α}
    (start : σ) : (∃ final, list.foldlM step start = .ok final) ↔ ∀ item ∈ list, accepts item := by
  induction list generalizing start with
  | nil => exact ⟨nofun, fun _ => ⟨start, rfl⟩⟩
  | cons first rest ih =>
    rw [List.forall_mem_cons, ← accepted start first]
    simp only [List.foldlM_cons, bind_eq_ok]
    constructor
    · rintro ⟨final, next, stepped, folded⟩
      exact ⟨⟨next, stepped⟩, (ih next).mp ⟨final, folded⟩⟩
    · rintro ⟨⟨next, stepped⟩, others⟩
      obtain ⟨final, folded⟩ := (ih next).mpr others
      exact ⟨final, next, stepped, folded⟩

end Results

namespace Run

variable {α β σ : Type}

/-- A run comes to a result, whatever has been reported before. -/
def HasResult (run : Run α) (result : Except Failure α) : Prop :=
  ∀ events, ∃ later, run events = match result with
    | .ok value => .ok value later
    | .error failure => .error failure later

namespace HasResult

variable {run : Run α} {result : Except Failure α}

theorem ok_iff (has : run.HasResult result) (events : List Event) (value : α) :
    (∃ later, run events = .ok value later) ↔ result = .ok value := by
  obtain ⟨later, ran⟩ := has events
  rw [ran]
  cases result with
  | ok other =>
    constructor
    · rintro ⟨_, ⟨⟩⟩
      rfl
    · rintro ⟨⟩
      exact ⟨later, rfl⟩
  | error failure => exact ⟨nofun, nofun⟩

theorem error_iff (has : run.HasResult result) (events : List Event) (failure : Failure) :
    (∃ later, run events = .error failure later) ↔ result = .error failure := by
  obtain ⟨later, ran⟩ := has events
  rw [ran]
  cases result with
  | ok value => exact ⟨nofun, nofun⟩
  | error other =>
    constructor
    · rintro ⟨_, ⟨⟩⟩
      rfl
    · rintro ⟨⟩
      exact ⟨later, rfl⟩

theorem pure (value : α) : (Pure.pure value : Run α).HasResult (.ok value) :=
  fun events => ⟨events, rfl⟩

theorem note (event : Event) : (Linkage.note event).HasResult (.ok ()) :=
  fun events => ⟨events ++ [event], rfl⟩

theorem lift (result : Except Failure α) : (liftM result : Run α).HasResult result := by
  intro events
  cases result with
  | ok value => exact ⟨events, rfl⟩
  | error failure => exact ⟨events, rfl⟩

theorem bind_ok {value : α} {next : α → Run β} {result' : Except Failure β}
    (first : run.HasResult (.ok value)) (second : (next value).HasResult result') :
    (run >>= next).HasResult result' := by
  intro events
  obtain ⟨between, ran⟩ := first events
  change ∃ later, EStateM.bind run next events = _
  rw [EStateM.bind, ran]
  exact second between

theorem bind_error {failure : Failure} {next : α → Run β} (first : run.HasResult (.error failure)) :
    (run >>= next).HasResult (.error failure) := by
  intro events
  obtain ⟨between, ran⟩ := first events
  change ∃ later, EStateM.bind run next events = _
  rw [EStateM.bind, ran]
  exact ⟨between, rfl⟩

theorem after_note {event : Event} (has : run.HasResult result) :
    (Linkage.note event >>= fun _ => run).HasResult result :=
  (note event).bind_ok has

theorem forM_note (list : List α) (event : α → Event) :
    (list.forM fun item => Linkage.note (event item)).HasResult (.ok ()) := by
  induction list with
  | nil => exact pure ()
  | cons first rest ih => exact ih.after_note

end HasResult

/-! ## When runs succeed, and with what -/

/-- A run succeeds under exactly this condition, and this holds of what it then gives. -/
def Computes (run : Run α) (condition : Prop) (outcome : α → Prop) : Prop :=
  ∃ result, run.HasResult result ∧ ((∃ value, result = .ok value) ↔ condition) ∧
    ∀ value, result = .ok value → outcome value

/-- Whether two runs succeed together, and then with the same value, whatever has been reported before
either. -/
def Agrees (run run' : Run α) : Prop :=
  ∀ events events',
    ((∃ value later, run events = .ok value later) ↔
      ∃ value later, run' events' = .ok value later) ∧
    ∀ value value' later later', run events = .ok value later → run' events' = .ok value' later' →
      value = value'

namespace Computes

variable {run : Run α} {condition condition' : Prop} {outcome outcome' : α → Prop}

theorem pure {value : α} (always : condition) (holds : outcome value) :
    (Pure.pure value : Run α).Computes condition outcome := by
  refine ⟨_, .pure value, ⟨fun _ => always, fun _ => ⟨value, rfl⟩⟩, ?_⟩
  rintro _ ⟨⟩
  exact holds

theorem mono (computes : run.Computes condition outcome) (same : condition ↔ condition')
    (weaker : ∀ value, outcome value → outcome' value) : run.Computes condition' outcome' := by
  obtain ⟨result, has, succeeds, holds⟩ := computes
  exact ⟨result, has, succeeds.trans same, fun value opened => weaker value (holds value opened)⟩

theorem lift {result : Except Failure α} (succeeds : (∃ value, result = .ok value) ↔ condition)
    (holds : ∀ value, result = .ok value → outcome value) :
    (liftM result : Run α).Computes condition outcome :=
  ⟨result, .lift result, succeeds, holds⟩

theorem after_note (event : Event) (computes : run.Computes condition outcome) :
    (Linkage.note event >>= fun _ => run).Computes condition outcome := by
  obtain ⟨result, has, spec⟩ := computes
  exact ⟨result, has.after_note, spec⟩

/-- What the second run gives may depend on the first one, but not whether it succeeds. -/
theorem bind {next : α → Run β} {outcome' : α → β → Prop} (first : run.Computes condition outcome)
    (second : ∀ value, outcome value → (next value).Computes condition' (outcome' value)) :
    (run >>= next).Computes (condition ∧ condition')
      fun final => ∃ value, outcome value ∧ outcome' value final := by
  obtain ⟨result, has, succeeds, holds⟩ := first
  cases result with
  | error failure =>
    refine ⟨.error failure, has.bind_error, ?_, nofun⟩
    refine ⟨nofun, fun ⟨met, _⟩ => ?_⟩
    obtain ⟨_, ⟨⟩⟩ := succeeds.mpr met
  | ok value =>
    have good := holds value rfl
    obtain ⟨result, has', succeeds', holds'⟩ := second value good
    refine ⟨result, has.bind_ok has', ?_, fun final opened => ⟨value, good, holds' final opened⟩⟩
    rw [succeeds']
    exact ⟨fun met => ⟨succeeds.mp ⟨value, rfl⟩, met⟩, And.right⟩

theorem map {f : α → β} (computes : run.Computes condition outcome) :
    (run >>= fun value => Pure.pure (f value)).Computes condition
      fun final => ∃ value, outcome value ∧ f value = final := by
  refine (computes.bind fun value _ => .pure trivial rfl).mono ?_ ?_
  · rw [and_true]
  · exact fun final given => given

theorem mapNoted (f : α → β) (event : α → Event) (computes : run.Computes condition outcome) :
    (run >>= fun value => Linkage.note (event value) >>= fun _ => Pure.pure (f value)).Computes
      condition fun final => ∃ value, outcome value ∧ f value = final := by
  refine (computes.bind fun value _ => (Computes.pure trivial rfl).after_note _).mono ?_ ?_
  · rw [and_true]
  · exact fun final given => given

theorem mapM {f : α → Run β} {condition : α → Prop} {outcome : α → β → Prop}
    (each : ∀ item, (f item).Computes (condition item) (outcome item)) (list : List α) :
    (list.mapM f).Computes (∀ item ∈ list, condition item) (List.Forall₂ outcome list) := by
  induction list with
  | nil => exact .pure (by simp) .nil
  | cons first rest ih =>
    rw [List.mapM_cons]
    refine ((each first).bind fun head _ => ih.map (f := (head :: ·))).mono ?_ ?_
    · rw [List.forall_mem_cons]
    · rintro _ ⟨head, given, tail, others, rfl⟩
      exact .cons given others

theorem after_notes (list : List β) (event : β → Event) (computes : run.Computes condition outcome) :
    ((list.forM fun item => Linkage.note (event item)) >>= fun _ => run).Computes condition
      outcome := by
  obtain ⟨result, has, spec⟩ := computes
  exact ⟨result, (HasResult.forM_note list event).bind_ok has, spec⟩

theorem ok_iff (computes : run.Computes condition outcome) (events : List Event) :
    (∃ value later, run events = .ok value later) ↔ condition := by
  obtain ⟨result, has, succeeds, -⟩ := computes
  rw [← succeeds]
  exact exists_congr (has.ok_iff events)

theorem error_iff (computes : run.Computes condition outcome) (events : List Event) :
    (∃ failure later, run events = .error failure later) ↔ ¬ condition := by
  obtain ⟨result, has, succeeds, -⟩ := computes
  rw [← succeeds]
  simp only [has.error_iff events]
  cases result with
  | ok value => simp
  | error failure => simp

theorem holds (computes : run.Computes condition outcome) {events later : List Event} {value : α}
    (ran : run events = .ok value later) : outcome value := by
  obtain ⟨result, has, -, holds⟩ := computes
  exact holds value ((has.ok_iff events value).mp ⟨later, ran⟩)

theorem agrees {run' : Run α} (first : run.Computes condition outcome)
    (second : run'.Computes condition' outcome') (same : condition ↔ condition')
    (unique : ∀ {value value'}, outcome value → outcome' value' → value = value') :
    run.Agrees run' := by
  intro events events'
  constructor
  · rw [first.ok_iff, second.ok_iff, same]
  · intro value value' later later' ran ran'
    exact unique (first.holds ran) (second.holds ran')

end Computes

end Run

end Linkage
