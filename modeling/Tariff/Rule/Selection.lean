/-
# Selection of rules

The rules that a query asks for, in the order in which they apply: by priority, and by id
where priorities are equal. Rules that agree in both keep their order.
-/
import Tariff.Rule.Basic
import Tariff.Text.Name

namespace Tariff

/-- A question for the rules of a country, possibly of one category, on a day. -/
structure RuleQuery where
  country : String
  type : Option RuleType
  date : Date
  deriving DecidableEq

namespace RuleQuery

/-- Whether a rule is one that the query asks for. The case of a country's code does not count. -/
def accepts (query : RuleQuery) (rule : Rule) : Bool :=
  sameIgnoringCase rule.country query.country && rule.isEffectiveOn query.date &&
    match query.type with
    | some type => rule.type == type
    | none => true

end RuleQuery

namespace Rule

/-- Whether a rule may stand before another one: its priority is lower, or the priorities are
equal and its id is not greater. -/
def precedes (a b : Rule) : Bool :=
  decide (a.priority < b.priority) || (a.priority == b.priority && decide (a.id ≤ b.id))

end Rule

section

variable {α : Type} (ruleOf : α → Rule)

/-- Things that carry rules, in the order in which the rules apply. -/
def orderRules (carriers : List α) : List α :=
  carriers.mergeSort fun a b => (ruleOf a).precedes (ruleOf b)

/-- Those things whose rules a query asks for, in the order in which the rules apply. -/
def selectRules (query : RuleQuery) (carriers : List α) : List α :=
  orderRules ruleOf (carriers.filter fun carrier => query.accepts (ruleOf carrier))

end

end Tariff
