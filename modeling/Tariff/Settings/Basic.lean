/-
# Settings

What an operator may set: how the engine treats amounts and invalid rules, and how the service
reports on itself. Each setting has a default.
-/

namespace Tariff

/-- What happens to a list of rules of which some are invalid. -/
inductive InvalidRulePolicy where
  /-- The whole list is refused. -/
  | abort
  /-- The invalid rules are left out. -/
  | skip
  deriving DecidableEq

namespace InvalidRulePolicy

/-- The name of a policy. -/
def name : InvalidRulePolicy → String
  | .abort => "abort"
  | .skip => "skip"

/-- The policy of a name. -/
def ofName? (name : String) : Option InvalidRulePolicy :=
  [abort, skip].find? fun policy => policy.name == name

end InvalidRulePolicy

/-- The settings of calculations. -/
structure EngineSettings where
  /-- The currency of calculations whose parameters ask for none. -/
  defaultCurrency : String := "EUR"
  invalidRulePolicy : InvalidRulePolicy := .abort
  /-- Whether the evaluation of rules is traced. -/
  traceEnabled : Bool := false
  deriving DecidableEq

/-- The settings of logs and counters. -/
structure ObservabilitySettings where
  serviceName : String := "vat-rule-engine"
  logLevel : String := "info"
  jsonLogs : Bool := false
  metricsEnabled : Bool := true
  deriving DecidableEq

/-- All settings of a service. -/
structure ServiceSettings where
  serviceName : String := "vat-rule-engine"
  environment : String := "development"
  engine : EngineSettings := {}
  observability : ObservabilitySettings := {}
  deriving DecidableEq

/-- Whether the settings are those of a service in production. -/
def ServiceSettings.isProduction (settings : ServiceSettings) : Bool :=
  settings.environment == "production"

end Tariff
