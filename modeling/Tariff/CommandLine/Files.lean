/-
# Commands on files

Rules and parameters come from files. A command reads the file of the rules first and loads
them before it turns to the parameters.
-/
import Tariff.Catalog.Batch
import Tariff.Estimate.Basic
import Tariff.Json.Basic
import Tariff.Parameter.Json

namespace Tariff

/-- The contents of files by their paths; there is none where a file cannot be read. -/
abbrev Files := String → Option String

/-- Why a command has no result. -/
inductive CommandFault where
  | unreadableFile (path : String)
  | rulesNotLoaded (path : String) (cause : RuleError)
  | rulesNotRead (path : String) (cause : RuleError)
  | parametersNotRead (path : String) (cause : RuleError)
  | calculation (cause : RuleError)
  deriving DecidableEq

namespace CommandFault

/-- The wording of a fault, its cause left out where the file is named. -/
def message : CommandFault → String
  | .unreadableFile path => s!"无法读取文件 {path}"
  | .rulesNotLoaded path _ => s!"无法加载规则文件 {path}"
  | .rulesNotRead path _ => s!"无法解析规则文件 {path}"
  | .parametersNotRead path _ => s!"无法解析参数文件 {path}"
  | .calculation cause => cause.message

/-- The error behind a fault, unless a file could not be read. -/
def cause? : CommandFault → Option RuleError
  | .unreadableFile _ => none
  | .rulesNotLoaded _ cause => some cause
  | .rulesNotRead _ cause => some cause
  | .parametersNotRead _ cause => some cause
  | .calculation cause => some cause

end CommandFault

/-- The contents of a file. -/
def readFile (files : Files) (path : String) : Except CommandFault String :=
  match files path with
  | some text => .ok text
  | none => .error (.unreadableFile path)

/-! ## Validation -/

/-- The rules of a file that can be compiled, and those that cannot with the reasons. -/
structure ValidationReport where
  valid : List String
  invalid : List (String × RuleError)

namespace ValidationReport

/-- Whether all rules can be compiled. -/
def isValid (report : ValidationReport) : Bool := report.invalid.isEmpty

/-- The JSON object that a report is written as. -/
def toJson (report : ValidationReport) : Json :=
  let line := fun (id, error) =>
    Json.object [("rule_id", .text id), ("error", .text (RuleError.message error))]
  .object [("valid", .array (report.valid.map .text)),
    ("invalid", .array (report.invalid.map line))]

end ValidationReport

/-- Compiles the rules of a file, each by itself. -/
def validateFile (files : Files) (path : String) : Except CommandFault ValidationReport := do
  let text ← readFile files path
  let report ← (Catalog.empty.loadBatchText .skip text).1.mapError (.rulesNotRead path)
  return ⟨report.loaded, report.failed⟩

/-! ## Estimates -/

/-- Loads the rules of a file. -/
def loadRules (files : Files) (policy : InvalidRulePolicy) (path : String) :
    Except CommandFault Catalog := do
  let text ← readFile files path
  let (result, catalog) := Catalog.empty.loadBatchText policy text
  let _ ← result.mapError (.rulesNotLoaded path)
  return catalog

/-- Reads the parameters in a file. -/
def readParameters (files : Files) (path : String) : Except CommandFault ParameterBag := do
  let text ← readFile files path
  (ParameterBag.ofText text).mapError (.parametersNotRead path)

/-- Estimates the costs from the rules and the parameters in two files; the second component
holds the events of the calculation. -/
def estimateFiles (files : Files) (settings : EngineSettings) (rules parameters : String)
    (countries : List String) (date : Date) : Except CommandFault CostEstimate × List Event :=
  let inputs := do
    let catalog ← loadRules files settings.invalidRulePolicy rules
    let bag ← readParameters files parameters
    return (catalog, bag)
  match inputs with
  | .ok (catalog, bag) =>
    let estimate := catalog.estimate settings bag date countries
    (estimate.outcome.mapError .calculation, estimate.events)
  | .error fault => (.error fault, [])

end Tariff
