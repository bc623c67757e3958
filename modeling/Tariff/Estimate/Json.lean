/-
# Estimates in JSON

How breakdowns and estimates are written.
-/
import Tariff.Estimate.Basic
import Tariff.Json.Basic

namespace Tariff

/-- The JSON object that a rule that applied is written as. -/
def AppliedRule.toJson (rule : AppliedRule) : Json :=
  .object [("rule_id", .text rule.id), ("rule_name", .text rule.name),
    ("rule_type", .text rule.type.name), ("amount", .text rule.amount.toText)]

/-- The JSON object that a breakdown is written as. -/
def CountryBreakdown.toJson (breakdown : CountryBreakdown) : Json :=
  .object [("country_code", .text breakdown.country),
    ("effective_date", .text breakdown.date.toText),
    ("applied_rules", .array (breakdown.applied.map AppliedRule.toJson)),
    ("skipped_rules", .array (breakdown.skipped.map .text)),
    ("total", breakdown.total.toJson)]

/-- The JSON object that an estimate is written as. -/
def CostEstimate.toJson (estimate : CostEstimate) : Json :=
  .object [("countries", .array (estimate.countries.map CountryBreakdown.toJson)),
    ("total", estimate.total.toJson)]

end Tariff
