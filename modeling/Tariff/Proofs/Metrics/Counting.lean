/-
# Counting

The events of a computation are those of its parts up to and including the first that fails. A
counter rises by the sum of what it rises by for each part.

* `events_bind_of_ok`, `events_bind_of_error`, `events_foldlM_of_error` : the events of
  computations in a row;
* `increase_append`, `increase_flatMap` : how counters add up;
* `Counts` : what the counters of evaluations say about a computation;
* `increase_of_evaluations`, `increase_calculation` : the counters of calculations.
-/
import Tariff.Metrics.Series

namespace Tariff

/-! ## Events -/

namespace Metered

variable {α β : Type} {first : Metered α} {next : α → Metered β}

/-- After a computation that succeeds come the events of the next one. -/
theorem events_bind_of_ok {value : α} (h : first.outcome = .ok value) :
    (first >>= next).events = first.events ++ (next value).events := by
  obtain ⟨outcome, events⟩ := first
  obtain rfl : outcome = .ok value := h
  rfl

/-- A computation that fails is the last one. -/
theorem events_bind_of_error {error : RuleError} (h : first.outcome = .error error) :
    (first >>= next).events = first.events := by
  obtain ⟨outcome, events⟩ := first
  obtain rfl : outcome = .error error := h
  rfl

/-- What is made of a value raises no events. -/
theorem events_bind_pure (first : Metered α) (f : α → β) :
    (first >>= fun value => pure (f value)).events = first.events := by
  cases h : first.outcome with
  | ok value => rw [events_bind_of_ok h, events_pure, List.append_nil]
  | error error => rw [events_bind_of_error h]

variable {step : β → α → Metered β} {state last : β} {before after : List α} {x : α}

/-- A run over a list has no events after the first step that fails. -/
theorem events_foldlM_of_error {error : RuleError}
    (h : (before.foldlM step state).outcome = .ok last)
    (hx : (step last x).outcome = .error error) :
    ((before ++ x :: after).foldlM step state).events =
      (before.foldlM step state).events ++ (step last x).events := by
  rw [List.foldlM_append, events_bind_of_ok h, List.foldlM_cons, events_bind_of_error hx]

/-- What holds of the events of all parts holds of those of the whole. -/
theorem forall_mem_events_bind {P : Event → Prop} (hfirst : ∀ event ∈ first.events, P event)
    (hnext : ∀ value, ∀ event ∈ (next value).events, P event) :
    ∀ event ∈ (first >>= next).events, P event := by
  cases h : first.outcome with
  | ok value =>
    rw [events_bind_of_ok h]
    exact List.forall_mem_append.mpr ⟨hfirst, hnext value⟩
  | error error =>
    rw [events_bind_of_error h]
    exact hfirst

theorem forall_mem_events_foldlM {P : Event → Prop} {l : List α}
    (hstep : ∀ state, ∀ x ∈ l, ∀ event ∈ (step state x).events, P event) :
    ∀ event ∈ (l.foldlM step state).events, P event := by
  induction l generalizing state with
  | nil => simp
  | cons x l ih =>
    rw [List.foldlM_cons]
    exact forall_mem_events_bind (hstep state x List.mem_cons_self)
      fun next => ih fun state y hy => hstep state y (List.mem_cons_of_mem x hy)

end Metered

/-! ## Counters -/

variable {series : Series} {events first second : List Event}

theorem increase_append (series : Series) (first second : List Event) :
    increase series (first ++ second) = increase series first + increase series second := by
  induction first with
  | nil => rw [List.nil_append, increase, Nat.zero_add]
  | cons event first ih => rw [List.cons_append, increase, increase, ih, Nat.add_assoc]

/-- Where each element of a list raises a counter by one or not at all, the list raises it once for
each that does. -/
theorem increase_flatMap {α : Type} {f : α → List Event} {p : α → Bool} {l : List α}
    (h : ∀ x ∈ l, increase series (f x) = if p x then 1 else 0) :
    increase series (l.flatMap f) = l.countP p := by
  induction l with
  | nil => rfl
  | cons x l ih =>
    obtain ⟨hx, hothers⟩ := List.forall_mem_cons.mp h
    rw [List.flatMap_cons, increase_append, hx, ih hothers, List.countP_cons, Nat.add_comm]

theorem lookup_eq_none_of_name {entries : List (Series × Nat)}
    (h : ∀ entry ∈ entries, entry.1.name ≠ series.name) : entries.lookup series = none := by
  rw [List.lookup_eq_none_iff]
  intro entry hentry
  rw [bne_iff_ne]
  rintro rfl
  exact h entry hentry rfl

/-- An event does not raise a counter whose name is not among those that it raises. -/
theorem increase_eq_zero {event : Event}
    (h : ∀ entry ∈ event.increments, entry.1.name ≠ series.name) : increase series [event] = 0 := by
  rw [increase, lookup_eq_none_of_name h]
  rfl

/-- An event that raises one series of a name by one raises no other one of the name. -/
theorem increase_eq_ite {event : Event} {own : Series} {others : List (Series × Nat)}
    (hown : event.increments = (own, 1) :: others)
    (h : ∀ entry ∈ others, entry.1.name ≠ series.name) :
    increase series [event] = if series = own then 1 else 0 := by
  rw [increase, hown, List.lookup_cons]
  by_cases hseries : series = own
  · rw [if_pos hseries, hseries, beq_self_eq_true]
    rfl
  · rw [if_neg hseries, beq_eq_false_iff_ne.mpr hseries, lookup_eq_none_of_name h]
    rfl

/-- The series of evaluations are those of their phases and their success. -/
theorem evaluationSeries_inj {phase other : Phase} {succeeded otherSucceeded : Bool} :
    evaluationSeries phase succeeded = evaluationSeries other otherSucceeded ↔
      phase = other ∧ succeeded = otherSucceeded := by
  cases phase <;> cases other <;> cases succeeded <;> cases otherSucceeded <;> decide

theorem increase_evaluation (phase other : Phase) (succeeded otherSucceeded : Bool) :
    increase (evaluationSeries phase succeeded) [.evaluation other otherSucceeded] =
      if phase = other ∧ succeeded = otherSucceeded then 1 else 0 := by
  rw [increase_eq_ite rfl (by simp [evaluationSeries])]
  simp only [evaluationSeries_inj]

theorem increase_calculation (hname : series.name = "country_cost_calculations_total")
    (country : String) (succeeded : Bool) (applied : Nat) :
    increase series [.calculation country succeeded applied] =
      if series = calculationSeries country succeeded then 1 else 0 :=
  increase_eq_ite rfl (by simp [hname])

/-! ## Evaluations -/

/-- What the counters of evaluations say about events: how many conditions and expressions had a
value, and in which phase one had none. -/
structure Counts (events : List Event) (conditions expressions : Nat) (failed : Option Phase) :
    Prop where
  conditions : increase (evaluationSeries .condition true) events = conditions
  expressions : increase (evaluationSeries .expression true) events = expressions
  failures : ∀ phase, increase (evaluationSeries phase false) events =
    if failed = some phase then 1 else 0

namespace Counts

theorem nil : Counts [] 0 0 none :=
  ⟨rfl, rfl, fun _ => rfl⟩

theorem condition : Counts [.evaluation .condition true] 1 0 none := by
  refine ⟨?_, ?_, fun phase => ?_⟩ <;> rw [increase_evaluation] <;> simp

theorem expression : Counts [.evaluation .expression true] 0 1 none := by
  refine ⟨?_, ?_, fun phase => ?_⟩ <;> rw [increase_evaluation] <;> simp

theorem failure (phase : Phase) : Counts [.evaluation phase false] 0 0 (some phase) := by
  refine ⟨?_, ?_, fun other => ?_⟩ <;> rw [increase_evaluation] <;> simp [eq_comm]

variable {conditions expressions moreConditions moreExpressions : Nat} {failed : Option Phase}

/-- After events without a failure the counters go on. -/
theorem append (h : Counts first conditions expressions none)
    (hsecond : Counts second moreConditions moreExpressions failed) :
    Counts (first ++ second) (conditions + moreConditions) (expressions + moreExpressions)
      failed := by
  refine ⟨?_, ?_, fun phase => ?_⟩
  · rw [increase_append, h.conditions, hsecond.conditions]
  · rw [increase_append, h.expressions, hsecond.expressions]
  · rw [increase_append, h.failures, hsecond.failures, if_neg (by simp), Nat.zero_add]

/-- A calculation is no evaluation. -/
theorem append_calculation (h : Counts events conditions expressions failed) (country : String)
    (succeeded : Bool) (applied : Nat) :
    Counts (events ++ [.calculation country succeeded applied]) conditions expressions failed := by
  have hsame : ∀ phase value, increase (evaluationSeries phase value)
      (events ++ [.calculation country succeeded applied]) =
        increase (evaluationSeries phase value) events := by
    intro phase value
    rw [increase_append, increase_eq_zero, Nat.add_zero]
    simp [Event.increments, evaluationSeries, calculationSeries]
  refine ⟨?_, ?_, fun phase => ?_⟩
  · rw [hsame, h.conditions]
  · rw [hsame, h.expressions]
  · rw [hsame, h.failures]

end Counts

/-- Evaluations are no calculations. -/
theorem increase_of_evaluations (hname : series.name = "country_cost_calculations_total")
    (h : ∀ event ∈ events, ∃ phase succeeded, event = .evaluation phase succeeded) :
    increase series events = 0 := by
  induction events with
  | nil => rfl
  | cons event events ih =>
    obtain ⟨⟨phase, succeeded, rfl⟩, hothers⟩ := List.forall_mem_cons.mp h
    rw [← List.singleton_append, increase_append, ih hothers]
    exact increase_eq_zero (by simp [Event.increments, evaluationSeries, hname])

end Tariff
