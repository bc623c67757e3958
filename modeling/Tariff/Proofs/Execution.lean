/-
# What becomes of a rule

A rule is skipped when it has a condition whose value is not greater than zero. Any other rule that
is executed applies, with the value of its expression as its amount. Traces change nothing.

* `isSkipped_iff` : when a rule is skipped;
* `exists_holds_iff` : when a rule applies;
* `execute_of_error`, `execute_of_not_holds`, `execute_of_holds` : an execution by the value of the
  condition;
* `exists_execute_iff` : which amount the execution of a rule yields, if any;
* `execute_eq_error_iff` : which formula of a rule makes its execution fail;
* `Fails.blames` : what the error of a rule tells.
-/
import Tariff.Execution
import Tariff.Proofs.Decimal.Value
import Tariff.Proofs.Formula.Validity
import Tariff.Proofs.Rule.Compilation

namespace Tariff

namespace CompiledRule

variable {compiled : CompiledRule} {bag : ParameterBag}

/-- Whether a rule has a condition that has a value, but one that is not greater than zero. -/
def isSkipped (compiled : CompiledRule) (bag : ParameterBag) : Bool :=
  compiled.condition.any fun condition =>
    (condition.evaluate (compiled.source bag)).toOption.any fun value => !value.isPositive

theorem isSkipped_iff :
    compiled.isSkipped bag = true ↔
      ∃ condition value, compiled.condition = some condition ∧
        condition.evaluate (compiled.source bag) = .ok value ∧ value.toRat ≤ 0 := by
  simp only [isSkipped, Option.any_eq_true, toOption_eq_some_iff, Bool.not_eq_true',
    Bool.eq_false_iff, ne_eq, Decimal.isPositive_iff, not_lt]
  constructor
  · rintro ⟨condition, hcondition, value, hvalue, hle⟩
    exact ⟨condition, value, hcondition, hvalue, hle⟩
  · rintro ⟨condition, value, hcondition, hvalue, hle⟩
    exact ⟨condition, hcondition, value, hvalue, hle⟩

/-! ## What is executed -/

/-- A rule applies if it has no condition, or one whose value is greater than zero. -/
def Applies (compiled : CompiledRule) (bag : ParameterBag) : Prop :=
  ∀ condition, compiled.condition = some condition →
    ∃ value, condition.evaluate (compiled.source bag) = .ok value ∧ 0 < value.toRat

/-- What the execution of a rule yields: no amount if the rule is skipped, and the value of its
expression if it applies. -/
inductive Yields (compiled : CompiledRule) (bag : ParameterBag) : Option Decimal → Prop where
  | skipped (hskipped : compiled.isSkipped bag = true) : Yields compiled bag none
  | applied {amount : Decimal} (happlies : compiled.Applies bag)
      (hamount : compiled.expression.evaluate (compiled.source bag) = .ok amount) :
      Yields compiled bag (some amount)

/-- Why the execution of a rule fails: its condition has no value, or it applies and its expression
has none. The error holds the rule, the formula and the reason. -/
inductive Fails (compiled : CompiledRule) (bag : ParameterBag) : RuleError → Prop where
  | condition {formula : Formula} {cause : RuleError}
      (hcondition : compiled.condition = some formula)
      (hcause : formula.evaluate (compiled.source bag) = .error cause) :
      Fails compiled bag (.ruleFailed compiled.id .condition formula.source cause)
  | expression {cause : RuleError} (happlies : compiled.Applies bag)
      (hcause : compiled.expression.evaluate (compiled.source bag) = .error cause) :
      Fails compiled bag (.ruleFailed compiled.id .expression compiled.expression.source cause)

theorem meterFormula_eq_ok_iff {phase : Phase} {formula : Formula} {value : Decimal} :
    (compiled.meterFormula phase formula bag).outcome = .ok value ↔
      formula.evaluate (compiled.source bag) = .ok value :=
  mapError_eq_ok_iff

theorem meterFormula_eq_error_iff {phase : Phase} {formula : Formula} {error : RuleError} :
    (compiled.meterFormula phase formula bag).outcome = .error error ↔
      ∃ cause, formula.evaluate (compiled.source bag) = .error cause ∧
        .ruleFailed compiled.id phase formula.source cause = error :=
  mapError_eq_error_iff

/-- The value of a condition is that of its formula. -/
theorem conditionValue_eq_ok_iff {value : Option Decimal} :
    (compiled.conditionValue bag).outcome = .ok value ↔
      Option.Rel (fun condition number => condition.evaluate (compiled.source bag) = .ok number)
        compiled.condition value := by
  rw [conditionValue]
  cases compiled.condition with
  | none =>
    constructor
    · intro h
      cases h
      exact .none
    · intro h
      cases h
      rfl
  | some condition =>
    show (compiled.meterFormula .condition condition bag >>= fun number =>
      pure (some number)).outcome = .ok value ↔ _
    rw [Metered.outcome_bind, bind_eq_ok_iff]
    constructor
    · rintro ⟨number, hnumber, hvalue⟩
      cases hvalue
      exact .some (meterFormula_eq_ok_iff.mp hnumber)
    · intro h
      cases h with
      | some hnumber => exact ⟨_, meterFormula_eq_ok_iff.mpr hnumber, rfl⟩

theorem conditionValue_eq_error_iff {error : RuleError} :
    (compiled.conditionValue bag).outcome = .error error ↔
      ∃ condition cause, compiled.condition = some condition ∧
        condition.evaluate (compiled.source bag) = .error cause ∧
        .ruleFailed compiled.id .condition condition.source cause = error := by
  rw [conditionValue]
  cases compiled.condition with
  | none =>
    constructor
    · intro h
      cases h
    · rintro ⟨condition, cause, hnone, -⟩
      cases hnone
  | some condition =>
    show (compiled.meterFormula .condition condition bag >>= fun number =>
      pure (some number)).outcome = .error error ↔ _
    rw [Metered.outcome_bind, bind_eq_error_iff, meterFormula_eq_error_iff]
    constructor
    · rintro (⟨cause, hcause, herror⟩ | ⟨number, -, h⟩)
      · exact ⟨condition, cause, rfl, hcause, herror⟩
      · cases h
    · rintro ⟨formula, cause, hsome, hcause, herror⟩
      cases hsome
      exact Or.inl ⟨cause, hcause, herror⟩

/-- The value of the condition decides whether a rule is skipped. -/
theorem isSkipped_of_conditionValue {value : Option Decimal}
    (h : (compiled.conditionValue bag).outcome = .ok value) :
    compiled.isSkipped bag = !holds value := by
  rw [conditionValue_eq_ok_iff] at h
  rw [isSkipped]
  cases hcondition : compiled.condition with
  | none =>
    rw [hcondition] at h
    cases h
    rfl
  | some condition =>
    rw [hcondition] at h
    cases h with
    | some hnumber =>
      rw [Option.any_some, hnumber]
      rfl

/-- A rule is checked by the value of its condition. -/
theorem outcome_check :
    (compiled.check bag).outcome = (compiled.conditionValue bag).outcome.map holds := by
  rw [check, Metered.outcome_bind]
  cases (compiled.conditionValue bag).outcome <;> rfl

/-- The value of the condition decides whether a rule applies. -/
theorem exists_holds_iff :
    (∃ value, (compiled.conditionValue bag).outcome = .ok value ∧ holds value = true) ↔
      compiled.Applies bag := by
  simp only [conditionValue_eq_ok_iff, Applies]
  cases compiled.condition with
  | none =>
    constructor
    · rintro - condition hnone
      cases hnone
    · intro h
      exact ⟨none, .none, rfl⟩
  | some condition =>
    constructor
    · rintro ⟨value, hvalue, hholds⟩ formula hsome
      cases hsome
      cases hvalue with
      | some hnumber => exact ⟨_, hnumber, (Decimal.isPositive_iff _).mp hholds⟩
    · intro h
      obtain ⟨number, hnumber, hpositive⟩ := h condition rfl
      exact ⟨some number, .some hnumber, (Decimal.isPositive_iff number).mpr hpositive⟩

/-- A rule that applies is not skipped. -/
theorem Applies.isSkipped_eq_false (h : compiled.Applies bag) : compiled.isSkipped bag = false := by
  obtain ⟨value, hvalue, hholds⟩ := exists_holds_iff.mpr h
  rw [isSkipped_of_conditionValue hvalue, hholds]
  rfl

/-- A rule that is skipped has a condition with a value that does not hold. -/
theorem exists_not_holds_iff :
    (∃ value, (compiled.conditionValue bag).outcome = .ok value ∧ holds value = false) ↔
      compiled.isSkipped bag = true := by
  constructor
  · rintro ⟨value, hvalue, hholds⟩
    rw [isSkipped_of_conditionValue hvalue, hholds]
    rfl
  · intro h
    obtain ⟨condition, number, hcondition, hnumber, hle⟩ := isSkipped_iff.mp h
    refine ⟨some number, ?_, ?_⟩
    · rw [conditionValue_eq_ok_iff, hcondition]
      exact .some hnumber
    · rw [holds, Bool.eq_false_iff, ne_eq, Decimal.isPositive_iff, not_lt]
      exact hle

/-! ## Executions -/

variable {traced : Bool} {value : Option Decimal}

/-- An execution fails with its condition. -/
theorem execute_of_error {error : RuleError}
    (h : (compiled.conditionValue bag).outcome = .error error) :
    (compiled.execute traced bag).outcome = .error error := by
  rw [execute, Metered.outcome_bind, h]
  rfl

/-- A condition that does not hold ends an execution. -/
theorem execute_of_not_holds (h : (compiled.conditionValue bag).outcome = .ok value)
    (hholds : holds value = false) :
    (compiled.execute traced bag).outcome = .ok ⟨compiled.id, false, none,
      if traced then [compiled.conditionTrace value] else []⟩ := by
  rw [execute, Metered.outcome_bind, h]
  show (if holds value then _ else _ : Metered RuleOutcome).outcome = _
  rw [hholds]
  rfl

/-- After a condition that holds an execution is an evaluation. -/
theorem execute_of_holds (h : (compiled.conditionValue bag).outcome = .ok value)
    (hholds : holds value = true) :
    (compiled.execute traced bag).outcome = (compiled.evaluate bag).outcome.map fun amount =>
      ⟨compiled.id, true, some amount, if traced then
        [compiled.conditionTrace value, compiled.expressionTrace amount] else []⟩ := by
  rw [execute, Metered.outcome_bind, h]
  show (if holds value then _ else _ : Metered RuleOutcome).outcome = _
  rw [if_pos hholds, Metered.outcome_bind]
  cases (compiled.evaluate bag).outcome with
  | error error => rfl
  | ok amount => cases traced <;> rfl

/-- What a successful execution went through. -/
theorem exists_of_execute {outcome : RuleOutcome}
    (h : (compiled.execute traced bag).outcome = .ok outcome) :
    ∃ value, (compiled.conditionValue bag).outcome = .ok value ∧
      (holds value = false ∧ outcome = ⟨compiled.id, false, none,
          if traced then [compiled.conditionTrace value] else []⟩ ∨
        holds value = true ∧ ∃ amount, (compiled.evaluate bag).outcome = .ok amount ∧
          outcome = ⟨compiled.id, true, some amount, if traced then
            [compiled.conditionTrace value, compiled.expressionTrace amount] else []⟩) := by
  cases hvalue : (compiled.conditionValue bag).outcome with
  | error error =>
    rw [execute_of_error hvalue] at h
    cases h
  | ok value =>
    refine ⟨value, rfl, ?_⟩
    cases hholds : holds value with
    | false =>
      rw [execute_of_not_holds hvalue hholds] at h
      cases h
      exact Or.inl ⟨rfl, rfl⟩
    | true =>
      rw [execute_of_holds hvalue hholds, map_eq_ok_iff] at h
      obtain ⟨amount, hamount, rfl⟩ := h
      exact Or.inr ⟨rfl, amount, hamount, rfl⟩

/-- The amount that the execution of a rule yields. -/
theorem exists_execute_iff {amount : Option Decimal} :
    (∃ outcome, (compiled.execute traced bag).outcome = .ok outcome ∧ outcome.amount = amount) ↔
      compiled.Yields bag amount := by
  constructor
  · rintro ⟨outcome, h, rfl⟩
    obtain ⟨value, hvalue, ⟨hholds, rfl⟩ | ⟨hholds, number, hnumber, rfl⟩⟩ := exists_of_execute h
    · exact .skipped (exists_not_holds_iff.mp ⟨value, hvalue, hholds⟩)
    · exact .applied (exists_holds_iff.mp ⟨value, hvalue, hholds⟩)
        (meterFormula_eq_ok_iff.mp hnumber)
  · intro h
    cases h with
    | skipped hskipped =>
      obtain ⟨value, hvalue, hholds⟩ := exists_not_holds_iff.mpr hskipped
      exact ⟨_, execute_of_not_holds hvalue hholds, rfl⟩
    | @applied number happlies hamount =>
      obtain ⟨value, hvalue, hholds⟩ := exists_holds_iff.mpr happlies
      refine ⟨_, (execute_of_holds hvalue hholds).trans (map_eq_ok_iff.mpr ⟨number, ?_, rfl⟩), rfl⟩
      exact meterFormula_eq_ok_iff.mpr hamount

/-- The execution of a rule fails for its condition, or for its expression if it applies. -/
theorem execute_eq_error_iff {error : RuleError} :
    (compiled.execute traced bag).outcome = .error error ↔ compiled.Fails bag error := by
  constructor
  · intro h
    cases hvalue : (compiled.conditionValue bag).outcome with
    | error cause =>
      rw [execute_of_error hvalue] at h
      cases h
      obtain ⟨condition, cause, hcondition, hcause, rfl⟩ := conditionValue_eq_error_iff.mp hvalue
      exact .condition hcondition hcause
    | ok value =>
      cases hholds : holds value with
      | false =>
        rw [execute_of_not_holds hvalue hholds] at h
        cases h
      | true =>
        rw [execute_of_holds hvalue hholds, map_eq_error_iff] at h
        obtain ⟨cause, hcause, rfl⟩ := meterFormula_eq_error_iff.mp h
        exact .expression (exists_holds_iff.mp ⟨value, hvalue, hholds⟩) hcause
  · intro h
    cases h with
    | condition hcondition hcause =>
      exact execute_of_error
        (conditionValue_eq_error_iff.mpr ⟨_, _, hcondition, hcause, rfl⟩)
    | expression happlies hcause =>
      obtain ⟨value, hvalue, hholds⟩ := exists_holds_iff.mpr happlies
      rw [execute_of_holds hvalue hholds, map_eq_error_iff]
      exact meterFormula_eq_error_iff.mpr ⟨_, hcause, rfl⟩

/-! ## Errors -/

/-- An error tells a formula of a rule that has no value: the condition or the expression, by its
text, with the reason at the first level. -/
inductive Blames (compiled : CompiledRule) (bag : ParameterBag) : RuleError → Prop where
  | condition {formula : Formula} {cause : RuleError}
      (hcondition : compiled.condition = some formula)
      (htext : compiled.rule.condition = some formula.source)
      (hcause : EvaluationFault (compiled.source bag) formula.parameters cause) :
      Blames compiled bag (.ruleFailed compiled.id .condition formula.source cause)
  | expression {cause : RuleError}
      (htext : compiled.rule.expression = compiled.expression.source)
      (hcause : EvaluationFault (compiled.source bag) compiled.expression.parameters cause) :
      Blames compiled bag (.ruleFailed compiled.id .expression compiled.expression.source cause)

/-- The condition of a faithful rule is read from the text of the rule. -/
theorem Faithful.parse_condition (hfaithful : compiled.Faithful) {formula : Formula}
    (hcondition : compiled.condition = some formula) :
    ∃ text, compiled.rule.condition = some text ∧ Formula.parse text = .ok formula := by
  have hread := hfaithful.condition
  rw [hcondition] at hread
  cases htext : compiled.rule.condition with
  | none =>
    rw [htext] at hread
    cases hread
  | some text =>
    rw [htext] at hread
    rcases hread with hparse | _
    exact ⟨text, rfl, hparse⟩

theorem Faithful.blames_condition (hfaithful : compiled.Faithful) {formula : Formula}
    {cause : RuleError} (hcondition : compiled.condition = some formula)
    (hcause : formula.evaluate (compiled.source bag) = .error cause) :
    compiled.Blames bag (.ruleFailed compiled.id .condition formula.source cause) := by
  obtain ⟨text, htext, hparse⟩ := hfaithful.parse_condition hcondition
  refine .condition hcondition ?_ (evaluationFault_of_parse hparse hcause)
  rw [htext, source_of_parse hparse]

theorem Faithful.blames_expression (hfaithful : compiled.Faithful) {cause : RuleError}
    (hcause : compiled.expression.evaluate (compiled.source bag) = .error cause) :
    compiled.Blames bag
      (.ruleFailed compiled.id .expression compiled.expression.source cause) :=
  have hparse := hfaithful.expression
  .expression (source_of_parse hparse).symm (evaluationFault_of_parse hparse hcause)

/-- A faithful rule whose execution fails is told with the text of its formula. -/
theorem Fails.blames {error : RuleError} (hfaithful : compiled.Faithful)
    (h : compiled.Fails bag error) : compiled.Blames bag error := by
  cases h with
  | condition hcondition hcause => exact hfaithful.blames_condition hcondition hcause
  | expression happlies hcause => exact hfaithful.blames_expression hcause

/-- So is one whose condition cannot be checked, -/
theorem Faithful.blames_of_check {error : RuleError} (hfaithful : compiled.Faithful)
    (h : (compiled.check bag).outcome = .error error) : compiled.Blames bag error := by
  rw [outcome_check, map_eq_error_iff, conditionValue_eq_error_iff] at h
  obtain ⟨condition, cause, hcondition, hcause, rfl⟩ := h
  exact hfaithful.blames_condition hcondition hcause

/-- and one whose expression is evaluated without regard to the condition. -/
theorem Faithful.blames_of_evaluate {error : RuleError} (hfaithful : compiled.Faithful)
    (h : (compiled.evaluate bag).outcome = .error error) : compiled.Blames bag error := by
  obtain ⟨cause, hcause, rfl⟩ := meterFormula_eq_error_iff.mp h
  exact hfaithful.blames_expression hcause

end CompiledRule

end Tariff
