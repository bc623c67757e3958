/-
# Parameter bags

The named values that a caller supplies for one calculation, and where formulas look names up:
in the bag, and for a rule also among the defaults that it declares.
-/
import Tariff.Error
import Tariff.Table

namespace Tariff

/-- The parameters of a calculation. -/
abbrev ParameterBag := Table ParameterValue

/-- Where formulas find the values of their parameters. -/
abbrev ParameterSource := String → Option ParameterValue

/-- The decimal for a parameter. -/
def resolve (source : ParameterSource) (name : String) : Except RuleError Decimal :=
  match source name with
  | none => .error (.parameterMissing name)
  | some value =>
    match value.toDecimal? with
    | some decimal => .ok decimal
    | none => .error (.notNumeric name value.kind)

/-- A bag over declared defaults: what the bag has counts, whatever it is. -/
def withDefaults (bag : ParameterBag) (defaults : Table ParameterValue) : ParameterSource :=
  fun name => (bag.get? name).or (defaults.get? name)

/-- The name of the parameter that holds the currency of a calculation. -/
def currencyParameter : String := "currency"

/-- The currency that a bag asks for, if it asks for one; it has to be a text. -/
def requestedCurrency (bag : ParameterBag) : Except RuleError (Option String) :=
  match bag.get? currencyParameter with
  | none => .ok none
  | some (.text code) => .ok (some code)
  | some value => .error (.invalidCurrency s!"<{value.kind.name}>")

end Tariff
