/-
# Checks, executions and traces

An execution is the check of a rule and then, if the rule applies, the evaluation of its expression.
It fails where the check fails; it yields nothing where the check says that the rule does not apply,
whatever the expression is; and otherwise it is the evaluation. A trace is written beside the
outcome and changes nothing else.

* `untraced_execute` : a trace changes nothing;
* `conditionLine_conditionTrace` : how the line of a condition reads;
* `execute_agrees_with_check` : the execution by the check and the evaluation, and its trace.
-/
import Tariff.Proofs.Execution

namespace Tariff

/-- An outcome without its trace. -/
def RuleOutcome.untraced (outcome : RuleOutcome) : RuleOutcome := { outcome with trace := [] }

namespace CompiledRule

variable {compiled : CompiledRule} {bag : ParameterBag} {traced : Bool} {value : Option Decimal}

/-! ## Traces -/

/-- Without its traces an execution is what it is when no traces are asked for, its events
included. -/
theorem untraced_execute :
    RuleOutcome.untraced <$> compiled.execute traced bag = compiled.execute false bag := by
  rw [execute, execute, map_bind]
  -- Both check the same condition, and differ only in what they write down afterwards.
  congr 1
  funext value
  by_cases hholds : holds value = true
  · simp only [if_pos hholds, map_bind]
    rfl
  · simp only [if_neg hholds]
    rfl

/-- How a trace marks a condition. -/
def verdict (applies : Bool) : String := if applies then "APPLIED" else "SKIPPED"

/-- The line for the condition of a rule: the text of the condition with its value, and whether this
lets the rule apply. -/
inductive ConditionLine (compiled : CompiledRule) (bag : ParameterBag) : Bool → String → Prop where
  | unconditional (hnone : compiled.condition = none) :
      ConditionLine compiled bag true "condition: <none> => APPLIED"
  | decided {condition : Formula} {value : Decimal} {applies : Bool}
      (hcondition : compiled.condition = some condition)
      (hvalue : condition.evaluate (compiled.source bag) = .ok value)
      (happlies : applies = true ↔ 0 < value.toRat) :
      ConditionLine compiled bag applies
        s!"condition: {condition.source} => {value} ({verdict applies})"

/-- Outcomes with their traces: one line for a rule that is skipped, and for one that applies a
second line with the text of the expression and the amount. -/
inductive Traces (compiled : CompiledRule) (bag : ParameterBag) : RuleOutcome → Prop where
  | skipped {line : String} (hline : compiled.ConditionLine bag false line) :
      Traces compiled bag ⟨compiled.id, false, none, [line]⟩
  | applied {line : String} {amount : Decimal} (hline : compiled.ConditionLine bag true line) :
      Traces compiled bag ⟨compiled.id, true, some amount,
        [line, s!"expression: {compiled.expression.source} => {amount}"]⟩

theorem conditionLine_conditionTrace (h : (compiled.conditionValue bag).outcome = .ok value) :
    compiled.ConditionLine bag (holds value) (compiled.conditionTrace value) := by
  rw [conditionValue_eq_ok_iff] at h
  unfold conditionTrace
  cases hcondition : compiled.condition with
  | none =>
    rw [hcondition] at h
    cases h
    exact .unconditional hcondition
  | some condition =>
    rw [hcondition] at h
    cases h with
    | some hvalue => exact .decided hcondition hvalue (Decimal.isPositive_iff _)

/-- **Checks, executions and traces agree.** An execution fails with the error of the check; it
succeeds without an amount if the check says that the rule does not apply; and if the rule applies,
it has the amount of the evaluation or its error. There is an amount exactly if the rule applied.
Traces change nothing else, and each line of a trace says what became of its formula. -/
theorem execute_agrees_with_check (compiled : CompiledRule) (bag : ParameterBag) :
    ((compiled.execute false bag).outcome =
      match (compiled.check bag).outcome with
      | .error error => .error error
      | .ok false => .ok ⟨compiled.id, false, none, []⟩
      | .ok true => (compiled.evaluate bag).outcome.map fun amount =>
          ⟨compiled.id, true, some amount, []⟩) ∧
    RuleOutcome.untraced <$> compiled.execute true bag = compiled.execute false bag ∧
    (∀ traced outcome, (compiled.execute traced bag).outcome = .ok outcome →
      outcome.amount.isSome = outcome.applied) ∧
    ∀ outcome, (compiled.execute true bag).outcome = .ok outcome →
      compiled.Traces bag outcome := by
  rw [outcome_check]
  refine ⟨?_, untraced_execute, ?_, ?_⟩
  · cases hvalue : (compiled.conditionValue bag).outcome with
    | error error => exact execute_of_error hvalue
    | ok value =>
      cases hholds : holds value with
      | false => exact (execute_of_not_holds hvalue hholds).trans (by simp [Except.map, hholds])
      | true => exact (execute_of_holds hvalue hholds).trans (by simp [Except.map, hholds])
  · intro traced outcome houtcome
    obtain ⟨value, -, ⟨-, rfl⟩ | ⟨-, amount, -, rfl⟩⟩ := exists_of_execute houtcome
    · rfl
    · rfl
  · intro outcome houtcome
    obtain ⟨value, hvalue, ⟨hholds, rfl⟩ | ⟨hholds, amount, -, rfl⟩⟩ := exists_of_execute houtcome
    · exact .skipped (hholds ▸ conditionLine_conditionTrace hvalue)
    · exact .applied (hholds ▸ conditionLine_conditionTrace hvalue)

/-- Without a turnover the rule is skipped, although there is no month to divide by and so the
expression has no value; with one it applies. -/
theorem execute_agrees_with_check_share :
    let idle : ParameterBag := Table.ofList [("turnover", .integer 0), ("months", .integer 0)]
    let busy : ParameterBag := Table.ofList [("turnover", .integer 1000), ("months", .integer 4)]
    ∃ compiled, shareRule.compile 0 = .ok compiled ∧
      (∃ error, (compiled.evaluate idle).outcome = .error error) ∧
      (compiled.execute false idle).outcome = .ok ⟨compiled.id, false, none, []⟩ ∧
      ∃ outcome, (compiled.execute true busy).outcome = .ok outcome ∧
        outcome.trace = ["condition: turnover => 1000 (APPLIED)",
          "expression: if(turnover, turnover * share, 0) / months => 50.0"] ∧
        outcome.amount.isSome = outcome.applied ∧ compiled.Traces busy outcome := by
  intro idle busy
  obtain ⟨compiled, hcompile, hruns⟩ := exists_of_toOption_map
    (show (shareRule.compile 0).toOption.map (fun compiled =>
        ((compiled.evaluate idle).outcome.isOk, (compiled.check idle).outcome.toOption,
          (compiled.execute true busy).outcome.toOption.map RuleOutcome.trace)) =
      some (false, some false, some ["condition: turnover => 1000 (APPLIED)",
        "expression: if(turnover, turnover * share, 0) / months => 50.0"]) by decide +kernel)
  simp only [Prod.mk.injEq] at hruns
  obtain ⟨hevaluate, hcheck, hexecute⟩ := hruns
  obtain ⟨outcome, houtcome, htrace⟩ := exists_of_toOption_map hexecute
  obtain ⟨hskipped, -, -, -⟩ := execute_agrees_with_check compiled idle
  obtain ⟨-, -, hamount, htraces⟩ := execute_agrees_with_check compiled busy
  rw [toOption_eq_some_iff.mp hcheck] at hskipped
  exact ⟨compiled, hcompile, exists_error_iff_isOk.mpr hevaluate, hskipped, outcome, houtcome,
    htrace, hamount true outcome houtcome, htraces outcome houtcome⟩

end CompiledRule

end Tariff
