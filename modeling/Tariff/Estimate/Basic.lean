/-
# Estimates

The cost of filings in a country is the sum of the amounts of the rules that apply there. All
rules see the same parameters and none sees the result of another one. The breakdown lists what
applied and what did not; an estimate adds up breakdowns.
-/
import Tariff.Catalog.Basic
import Tariff.Execution
import Tariff.Money
import Tariff.Settings.Basic

namespace Tariff

/-- A rule that applied, with its amount. -/
structure AppliedRule where
  id : String
  name : String
  type : RuleType
  amount : Decimal
  deriving DecidableEq

/-- What filings cost in a country, whose code is in upper case. -/
structure CountryBreakdown where
  country : String
  date : Date
  applied : List AppliedRule
  /-- The ids of the rules whose conditions do not hold. -/
  skipped : List String
  total : Money
  deriving DecidableEq

/-- What filings cost in several countries. -/
structure CostEstimate where
  countries : List CountryBreakdown
  total : Money
  deriving DecidableEq

/-! ## One country -/

/-- The currency of a calculation: the one that the parameters ask for, or else the default. -/
def currencyOf (settings : EngineSettings) (bag : ParameterBag) : Except RuleError String := do
  let requested ← requestedCurrency bag
  currencyCode (requested.getD settings.defaultCurrency)

/-- What has been added up so far. -/
structure Tally where
  applied : List AppliedRule
  skipped : List String
  total : Money

/-- Executes a rule and takes its outcome into the tally. -/
def Tally.take (settings : EngineSettings) (bag : ParameterBag) (tally : Tally)
    (compiled : CompiledRule) : Metered Tally := do
  let outcome ← compiled.execute settings.traceEnabled bag
  match outcome.amount with
  | some amount =>
    let total ← .ofExcept (tally.total.addAmount amount)
    let entry := ⟨compiled.id, compiled.rule.name, compiled.rule.type, amount⟩
    return { tally with applied := tally.applied ++ [entry], total }
  | none => return { tally with skipped := tally.skipped ++ [compiled.id] }

/-- Adds up rules, the first of which comes first. -/
def tallyRules (settings : EngineSettings) (bag : ParameterBag) (rules : List CompiledRule) :
    Metered Tally := do
  let currency ← .ofExcept (currencyOf settings bag)
  rules.foldlM (Tally.take settings bag) ⟨[], [], Money.zero currency⟩

namespace Catalog

/-- What filings cost in a country on a day. The calculation is counted, whether or not it
succeeds. -/
def breakdown (catalog : Catalog) (settings : EngineSettings) (bag : ParameterBag) (date : Date)
    (country : String) : Metered CountryBreakdown :=
  let tally := tallyRules settings bag (catalog.applicable ⟨country, none, date⟩)
  match tally.outcome with
  | .ok sum =>
    ⟨.ok ⟨country.toUpper, date, sum.applied, sum.skipped, sum.total⟩,
      tally.events ++ [.calculation country true sum.applied.length]⟩
  | .error error => ⟨.error error, tally.events ++ [.calculation country false 0]⟩

/-- The total of what filings cost in a country on a day. -/
def cost (catalog : Catalog) (settings : EngineSettings) (bag : ParameterBag) (date : Date)
    (country : String) : Metered Money := do
  return (← catalog.breakdown settings bag date country).total

/-! ## Several countries -/

/-- Adds a country to an estimate. -/
def extend (catalog : Catalog) (settings : EngineSettings) (bag : ParameterBag) (date : Date)
    (estimate : CostEstimate) (country : String) : Metered CostEstimate := do
  let breakdown ← catalog.breakdown settings bag date country
  let total ← .ofExcept (estimate.total.add breakdown.total)
  return ⟨estimate.countries ++ [breakdown], total⟩

/-- What filings cost in several countries on a day. -/
def estimate (catalog : Catalog) (settings : EngineSettings) (bag : ParameterBag) (date : Date)
    (countries : List String) : Metered CostEstimate := do
  let currency ← .ofExcept (currencyOf settings bag)
  countries.foldlM (catalog.extend settings bag date) ⟨[], Money.zero currency⟩

end Catalog

/-! ## Rules at hand -/

/-- Compiles rules that are given for one calculation, after `version` compilations that
succeeded; `seen` holds the ids of the rules that came before. Rules whose id came before and
rules that cannot be compiled are invalid, and the policy decides about them. -/
def compileGiven (policy : InvalidRulePolicy) (seen : List String) (version : Nat) :
    List Rule → Except RuleError (List CompiledRule)
  | [] => .ok []
  | rule :: rules =>
    let outcome :=
      if seen.contains rule.id then .error (.invalidRule rule.id .repeatedId)
      else rule.compile version
    match outcome, policy with
    | .ok compiled, _ =>
      (compileGiven policy (rule.id :: seen) compiled.version rules).map (compiled :: ·)
    | .error error, .abort => .error error
    | .error _, .skip => compileGiven policy (rule.id :: seen) version rules

/-- The values of the expressions of rules that are given for one calculation, by the ids of the
rules. -/
def evaluateGiven (settings : EngineSettings) (rules : List Rule) (bag : ParameterBag) :
    Metered (Table Decimal) := do
  let compiled ← .ofExcept (compileGiven settings.invalidRulePolicy [] 0 rules)
  evaluateRules compiled bag

end Tariff
