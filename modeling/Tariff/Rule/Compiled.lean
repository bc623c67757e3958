/-
# Compiled rules

A rule is compiled once: it is checked, its formulas are read, and the parameters that they
refer to are listed. Each compiled rule has a version, and each compilation that succeeds
uses up one.
-/
import Tariff.Formula.Reader
import Tariff.Parameter.Bag
import Tariff.Rule.Basic

namespace Tariff

/-! ## Checks -/

/-- The first flaw of a declaration, given the names declared before it. -/
def ParameterDeclaration.flaw? (before : List String) (declaration : ParameterDeclaration) :
    Option RuleFlaw :=
  if !isName declaration.name then some (.badParameterName declaration.name)
  else if before.contains declaration.name then some (.repeatedParameter declaration.name)
  else
    match declaration.default with
    | some value =>
      if declaration.type.isNumeric && value.toDecimal?.isNone then
        some (.badDefault declaration.name value.kind)
      else none
    | none => none

/-- The first flaw among declarations, given the names declared before them. -/
def declarationsFlaw? (before : List String) : List ParameterDeclaration → Option RuleFlaw
  | [] => none
  | declaration :: declarations =>
    (declaration.flaw? before).or
      (declarationsFlaw? (declaration.name :: before) declarations)

namespace Rule

/-- The flaw of the days on which a rule is in force: the first comes after the last. -/
def windowFlaw? (rule : Rule) : Option RuleFlaw :=
  match rule.effectiveTo with
  | some last =>
    if last < rule.effectiveFrom then some (.reversedWindow rule.effectiveFrom last) else none
  | none => none

/-- The first flaw of a rule, its formulas aside. -/
def flaw? (rule : Rule) : Option RuleFlaw :=
  if isBlankText rule.id then some .blankId
  else if !isLetterCode 2 rule.country then some (.badCountry rule.country)
  else rule.windowFlaw?.or (declarationsFlaw? [] rule.parameters)

/-- The defaults that a rule declares, in the order of declaration. -/
def declaredDefaults (rule : Rule) : List (String × ParameterValue) :=
  rule.parameters.filterMap fun declaration =>
    declaration.default.map fun value => (declaration.name, value)

end Rule

/-! ## Compilation -/

/-- A rule with its formulas read. -/
structure CompiledRule where
  rule : Rule
  expression : Formula
  condition : Option Formula
  /-- The parameters of both formulas, each once and in ascending order. -/
  requiredParameters : List String
  defaults : Table ParameterValue
  version : Nat

namespace Rule

/-- Reads a formula of a rule. -/
def parseFormula (rule : Rule) (text : String) : Except RuleError Formula :=
  (Formula.parse text).mapError fun fault => .ruleFailed rule.id .parse text (.malformed fault)

/-- Compiles a rule after `version` compilations that succeeded. -/
def compile (rule : Rule) (version : Nat) : Except RuleError CompiledRule := do
  if let some flaw := rule.flaw? then throw (.invalidRule rule.id flaw)
  let expression ← rule.parseFormula rule.expression
  let condition ← match rule.condition with
    | some text => (rule.parseFormula text).map some
    | none => pure none
  let conditionTokens := (condition.map Formula.tokens).getD []
  return {
    rule, expression, condition
    requiredParameters := parametersOf (expression.tokens ++ conditionTokens)
    defaults := Table.ofList rule.declaredDefaults
    version := version + 1 }

end Rule

namespace CompiledRule

/-- The id of the rule. -/
def id (compiled : CompiledRule) : String := compiled.rule.id

/-- Where the rule's formulas find their parameters: in a bag, and else among its defaults. -/
def source (compiled : CompiledRule) (bag : ParameterBag) : ParameterSource :=
  withDefaults bag compiled.defaults

end CompiledRule

end Tariff
