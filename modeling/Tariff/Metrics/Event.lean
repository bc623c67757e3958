/-
# Events

What a calculation lets an observer count: each evaluation of a formula and each calculation
for a country. A metered computation carries the events of its course beside its outcome; a
computation that fails keeps the events that came before.
-/
import Tariff.Error

namespace Tariff

/-- Something that is counted. A country is named as the caller spelled it. -/
inductive Event where
  | evaluation (phase : Phase) (succeeded : Bool)
  | calculation (country : String) (succeeded : Bool) (appliedRules : Nat)
  deriving DecidableEq

/-- An outcome, and the events that led to it. -/
structure Metered (α : Type) where
  outcome : Except RuleError α
  events : List Event

namespace Metered

variable {α β : Type}

/-- An outcome without events. -/
def ofExcept (outcome : Except RuleError α) : Metered α := ⟨outcome, []⟩

/-- An outcome after one event. -/
def recorded (outcome : Except RuleError α) (event : Event) : Metered α := ⟨outcome, [event]⟩

/-- Goes on with the value of a computation that succeeds. -/
def bind (first : Metered α) (next : α → Metered β) : Metered β :=
  match first.outcome with
  | .ok value =>
    let second := next value
    ⟨second.outcome, first.events ++ second.events⟩
  | .error error => ⟨.error error, first.events⟩

instance : Monad Metered where
  pure value := ofExcept (.ok value)
  bind := bind

@[simp] theorem outcome_ofExcept (outcome : Except RuleError α) :
    (ofExcept outcome).outcome = outcome := rfl

@[simp] theorem events_ofExcept (outcome : Except RuleError α) :
    (ofExcept outcome).events = [] := rfl

@[simp] theorem outcome_pure (value : α) : (pure value : Metered α).outcome = .ok value := rfl

@[simp] theorem events_pure (value : α) : (pure value : Metered α).events = [] := rfl

/-- The outcome of two computations in a row is that of their outcomes in a row. -/
@[simp] theorem outcome_bind (first : Metered α) (next : α → Metered β) :
    (first >>= next).outcome = first.outcome >>= fun value => (next value).outcome := by
  obtain ⟨outcome, events⟩ := first
  cases outcome <;> rfl

instance : LawfulMonad Metered := LawfulMonad.mk' Metered
  (by rintro α ⟨_ | _, events⟩ <;> simp [Functor.map, bind, ofExcept])
  (by intro α β value next; simp [Bind.bind, Pure.pure, bind, ofExcept])
  (by
    rintro α β γ ⟨_ | value, events⟩ next last
    · rfl
    · simp only [Bind.bind, bind]
      cases (next value).outcome <;> simp)

/-- The outcome of a run over a list is that of the outcomes of its steps. -/
theorem outcome_foldlM (step : β → α → Metered β) (state : β) (l : List α) :
    (l.foldlM step state).outcome = l.foldlM (fun state x => (step state x).outcome) state := by
  induction l generalizing state with
  | nil => rfl
  | cons x l ih =>
    rw [List.foldlM_cons, List.foldlM_cons, outcome_bind]
    congr 1
    funext next
    exact ih next

/-- The outcome of computations for a list is that of their outcomes. -/
theorem outcome_mapM (f : α → Metered β) (l : List α) :
    (l.mapM f).outcome = l.mapM fun x => (f x).outcome := by
  induction l with
  | nil => rfl
  | cons x l ih =>
    rw [List.mapM_cons, List.mapM_cons, outcome_bind]
    congr 1
    funext value
    rw [outcome_bind, ih]
    congr 1

end Metered

end Tariff
