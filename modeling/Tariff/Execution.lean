/-
# Execution of rules

A compiled rule applies if it has no condition, or if the value of its condition is greater
than zero. A rule that applies yields the value of its expression. A formula that cannot be
evaluated is an error of the rule, and never the same as a condition that does not hold.
-/
import Tariff.Formula.Evaluation
import Tariff.Metrics.Event
import Tariff.Rule.Compiled

namespace Tariff

/-- What became of a rule: whether it applied, its amount if it did, and a line of trace for
each formula, if traces are asked for. -/
structure RuleOutcome where
  ruleId : String
  applied : Bool
  amount : Option Decimal
  trace : List String
  deriving DecidableEq

namespace CompiledRule

/-- The value of one of a rule's formulas. -/
def evaluateFormula (compiled : CompiledRule) (phase : Phase) (formula : Formula)
    (bag : ParameterBag) : Except RuleError Decimal :=
  (formula.evaluate (compiled.source bag)).mapError
    fun cause => .ruleFailed compiled.id phase formula.source cause

/-- The value of one of a rule's formulas, counted as an evaluation. -/
def meterFormula (compiled : CompiledRule) (phase : Phase) (formula : Formula)
    (bag : ParameterBag) : Metered Decimal :=
  let outcome := compiled.evaluateFormula phase formula bag
  .recorded outcome (.evaluation phase outcome.isOk)

/-- The value of a rule's expression, whether or not the rule applies. -/
def evaluate (compiled : CompiledRule) (bag : ParameterBag) : Metered Decimal :=
  compiled.meterFormula .expression compiled.expression bag

/-- The value of a rule's condition, if it has one. -/
def conditionValue (compiled : CompiledRule) (bag : ParameterBag) : Metered (Option Decimal) :=
  match compiled.condition with
  | some condition => do return some (← compiled.meterFormula .condition condition bag)
  | none => return none

/-- Whether the value of a condition lets a rule apply. -/
def holds : Option Decimal → Bool
  | some value => value.isPositive
  | none => true

/-- Whether a rule applies. -/
def check (compiled : CompiledRule) (bag : ParameterBag) : Metered Bool := do
  return holds (← compiled.conditionValue bag)

/-- The trace of a condition and its value. -/
def conditionTrace (compiled : CompiledRule) (value : Option Decimal) : String :=
  match compiled.condition, value with
  | some condition, some value =>
    let verdict := if value.isPositive then "APPLIED" else "SKIPPED"
    s!"condition: {condition.source} => {value} ({verdict})"
  | _, _ => "condition: <none> => APPLIED"

/-- The trace of an expression and its value. -/
def expressionTrace (compiled : CompiledRule) (amount : Decimal) : String :=
  s!"expression: {compiled.expression.source} => {amount}"

/-- Executes a rule: the expression is evaluated only if the rule applies. -/
def execute (compiled : CompiledRule) (traced : Bool) (bag : ParameterBag) :
    Metered RuleOutcome := do
  let value ← compiled.conditionValue bag
  let trace := if traced then [compiled.conditionTrace value] else []
  if holds value then
    let amount ← compiled.evaluate bag
    let more := if traced then [compiled.expressionTrace amount] else []
    return ⟨compiled.id, true, some amount, trace ++ more⟩
  else
    return ⟨compiled.id, false, none, trace⟩

end CompiledRule

/-- The values of rules' expressions by the ids of the rules; conditions do not count. The first
rule that cannot be evaluated decides. -/
def evaluateRules (rules : List CompiledRule) (bag : ParameterBag) : Metered (Table Decimal) := do
  let values ← rules.mapM fun compiled => do return (compiled.id, ← compiled.evaluate bag)
  return Table.ofList values

end Tariff
