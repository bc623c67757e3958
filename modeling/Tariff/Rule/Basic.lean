/-
# Rules

A rule says what a filing costs in one country: a formula for the amount, possibly a condition
under which it applies, the days on which it is in force, and the parameters that it declares.
-/
import Tariff.Calendar.Timestamp
import Tariff.Parameter.Value

namespace Tariff

/-- The categories of rules. -/
inductive RuleType where
  | baseFee
  | vatRate
  | threshold
  | complexity
  | additionalService
  | discount
  deriving DecidableEq

namespace RuleType

/-- All categories, in the order in which they are listed. -/
def all : List RuleType :=
  [.baseFee, .vatRate, .threshold, .complexity, .additionalService, .discount]

/-- The name of a category. -/
def name : RuleType → String
  | .baseFee => "base_fee"
  | .vatRate => "vat_rate"
  | .threshold => "threshold"
  | .complexity => "complexity"
  | .additionalService => "additional_service"
  | .discount => "discount"

end RuleType

/-- The types that a parameter can be declared with. -/
inductive ParameterType where
  | decimal
  | integer
  | percentage
  | boolean
  | text
  deriving DecidableEq

namespace ParameterType

/-- All types, in the order in which they are listed. -/
def all : List ParameterType := [.decimal, .integer, .percentage, .boolean, .text]

/-- The name of a type. -/
def name : ParameterType → String
  | .decimal => "decimal"
  | .integer => "integer"
  | .percentage => "percentage"
  | .boolean => "boolean"
  | .text => "text"

/-- Whether values of the type take part in computations: all but texts do. -/
def isNumeric (t : ParameterType) : Bool := t != .text

end ParameterType

/-- The declaration of a parameter. -/
structure ParameterDeclaration where
  name : String
  type : ParameterType
  default : Option ParameterValue
  description : Option String

/-- A rule. The days on which it is in force include both ends; without a last day there is no
end. Rules of lower priority come first. -/
structure Rule where
  id : String
  name : String
  country : String
  type : RuleType
  expression : String
  condition : Option String
  priority : Int32
  effectiveFrom : Date
  effectiveTo : Option Date
  parameters : List ParameterDeclaration
  description : Option String
  createdAt : Option Timestamp
  updatedAt : Option Timestamp

namespace Rule

/-- Whether a rule is in force on a day. -/
def isEffectiveOn (rule : Rule) (date : Date) : Bool :=
  decide (rule.effectiveFrom ≤ date) &&
    match rule.effectiveTo with
    | some last => decide (date ≤ last)
    | none => true

end Rule

end Tariff
