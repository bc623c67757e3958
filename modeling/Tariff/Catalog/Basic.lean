/-
# Catalogs

A catalog holds compiled rules under their ids and knows how many compilations have succeeded
so far. Each operation returns its result together with the catalog as it is afterwards; one
that fails on a single rule leaves the catalog as it was.
-/
import Tariff.Rule.Compiled
import Tariff.Rule.Json
import Tariff.Rule.Selection

namespace Tariff

/-- Compiled rules by their ids, and the number of compilations that succeeded. -/
structure Catalog where
  rules : Table CompiledRule
  version : Nat

namespace Catalog

/-- The catalog without rules. -/
def empty : Catalog := ⟨.empty, 0⟩

/-! ## Look-up -/

/-- The number of rules. -/
def size (catalog : Catalog) : Nat := catalog.rules.size

/-- Whether a catalog has no rules. -/
def isEmpty (catalog : Catalog) : Bool := catalog.rules.isEmpty

/-- The rule of an id. -/
def get? (catalog : Catalog) (id : String) : Option CompiledRule := catalog.rules.get? id

/-- Whether there is a rule of an id. -/
def contains (catalog : Catalog) (id : String) : Bool := catalog.rules.contains id

/-- The ids of all rules. -/
def ids (catalog : Catalog) : List String := catalog.rules.names

/-- All rules. -/
def compiledRules (catalog : Catalog) : List CompiledRule :=
  catalog.rules.entries.map Prod.snd

/-- The rules that a query asks for, in the order in which they apply. -/
def applicable (catalog : Catalog) (query : RuleQuery) : List CompiledRule :=
  selectRules CompiledRule.rule query catalog.compiledRules

/-! ## Changes -/

/-- Puts a compiled rule under its id, in place of the one that may be there. -/
def put (catalog : Catalog) (compiled : CompiledRule) : Catalog :=
  { catalog with rules := catalog.rules.insert compiled.id compiled }

/-- Compiles a rule and puts it under its id. -/
def load (catalog : Catalog) (rule : Rule) : Except RuleError Unit × Catalog :=
  match rule.compile catalog.version with
  | .ok compiled => (.ok (), { catalog with version := compiled.version }.put compiled)
  | .error error => (.error error, catalog)

/-- Reads a rule from a text and loads it; the result is its id. -/
def loadText (catalog : Catalog) (text : String) : Except RuleError String × Catalog :=
  match Rule.ofText text with
  | .ok rule =>
    let (result, next) := catalog.load rule
    (result.map fun _ => rule.id, next)
  | .error error => (.error error, catalog)

/-- Loads a rule in place of one of the same id, which has to be there. -/
def update (catalog : Catalog) (rule : Rule) : Except RuleError Unit × Catalog :=
  if catalog.contains rule.id then catalog.load rule else (.error (.ruleNotFound rule.id), catalog)

/-- Removes the rule of an id, which has to be there. -/
def delete (catalog : Catalog) (id : String) : Except RuleError Unit × Catalog :=
  if catalog.contains id then (.ok (), { catalog with rules := catalog.rules.erase id })
  else (.error (.ruleNotFound id), catalog)

/-- Removes all rules. Versions go on from where they were. -/
def clear (catalog : Catalog) : Catalog := { catalog with rules := .empty }

/-! ## Statistics -/

/-- Figures about a catalog. -/
structure Statistics where
  rules : Nat
  /-- The countries of the rules in upper case, each once and in ascending order. -/
  countries : List String
  /-- How many parameters the rules refer to, each counted once for each rule. -/
  parameters : Nat

/-- The average number of parameters of a rule, which is zero without rules. -/
def Statistics.average (statistics : Statistics) : Float :=
  if statistics.rules = 0 then 0
  else Float.ofNat statistics.parameters / Float.ofNat statistics.rules

/-- The figures about a catalog. -/
def statistics (catalog : Catalog) : Statistics where
  rules := catalog.size
  countries :=
    (catalog.compiledRules.map fun compiled => compiled.rule.country.toUpper).eraseDups.mergeSort
      fun a b => decide (a ≤ b)
  parameters :=
    catalog.compiledRules.foldl (fun n compiled => n + compiled.requiredParameters.length) 0

end Catalog

end Tariff
