/-
# Batches

A list of rules is loaded as one. Of rules that share an id only the first one counts; the
others fail, as do rules that cannot be compiled. Whether the rest is then loaded is a matter of
policy. Either way the versions of the rules that were compiled are used up.
-/
import Tariff.Catalog.Basic
import Tariff.Settings.Basic

namespace Tariff

/-! ## Compilation of a list -/

/-- What became of a list of rules that were compiled one after the other. -/
structure BatchCompilation where
  compiled : List CompiledRule
  /-- The rules that failed, by their ids and in the order of the list. -/
  failed : List (String × RuleError)
  /-- The number of compilations that succeeded so far. -/
  version : Nat

/-- Compiles a list of rules after `version` compilations that succeeded; `seen` holds the ids
of the rules that came before. -/
def compileBatch (seen : List String) (version : Nat) : List Rule → BatchCompilation
  | [] => ⟨[], [], version⟩
  | rule :: rules =>
    let fail := fun (error : RuleError) (rest : BatchCompilation) =>
      { rest with failed := (rule.id, error) :: rest.failed }
    if seen.contains rule.id then
      fail (.invalidRule rule.id .repeatedId) (compileBatch seen version rules)
    else
      match rule.compile version with
      | .ok compiled =>
        let rest := compileBatch (rule.id :: seen) compiled.version rules
        { rest with compiled := compiled :: rest.compiled }
      | .error error => fail error (compileBatch (rule.id :: seen) version rules)

/-! ## Loading -/

/-- The ids that were loaded, and those that failed with the reasons, both in the order of the
list. -/
structure BatchReport where
  loaded : List String
  failed : List (String × RuleError)

/-- Whether no rule failed. -/
def BatchReport.isComplete (report : BatchReport) : Bool := report.failed.isEmpty

namespace Catalog

/-- Loads a list of rules. Under the policy to abort, one failure is enough for no rule to be
loaded, and the first one is the result. -/
def loadBatch (catalog : Catalog) (policy : InvalidRulePolicy) (rules : List Rule) :
    Except RuleError BatchReport × Catalog :=
  let batch := compileBatch [] catalog.version rules
  let advanced := { catalog with version := batch.version }
  let loaded :=
    (.ok ⟨batch.compiled.map CompiledRule.id, batch.failed⟩, batch.compiled.foldl put advanced)
  match policy, batch.failed with
  | .abort, (_, error) :: _ => (.error error, advanced)
  | .abort, [] => loaded
  | .skip, _ => loaded

/-- Reads a list of rules from a text and loads it. -/
def loadBatchText (catalog : Catalog) (policy : InvalidRulePolicy) (text : String) :
    Except RuleError BatchReport × Catalog :=
  match Rule.listOfText text with
  | .ok rules => catalog.loadBatch policy rules
  | .error error => (.error error, catalog)

end Catalog

end Tariff
