/-
# Setting values

What settings are written as: in files, as values of tables, and in environment variables, as
texts. A setting takes every value that can be converted to its type.
-/
import Tariff.Binary.Numeral
import Tariff.Binary.Shortest
import Tariff.Settings.Basic

namespace Tariff

/-- A value as it is written. -/
inductive SettingValue where
  | text (value : String)
  | integer (value : Int)
  | float (value : Float)
  | boolean (value : Bool)
  | list (items : List SettingValue)
  | table (entries : List (String × SettingValue))

namespace SettingValue

/-- The entries of a table; any other value has none. -/
def entries : SettingValue → List (String × SettingValue)
  | .table entries => entries
  | _ => []

/-! ## Conversion -/

/-- The text of a double, without an exponent. -/
def floatText (x : Float) : String :=
  match BinaryParts.ofFloat? x with
  | some parts => parts.plainText
  | none => if x.isNaN then "NaN" else if x < 0.0 then "-inf" else "inf"

/-- The text that a value counts as. -/
def toText? : SettingValue → Option String
  | .text value => some value
  | .integer value => some (toString value)
  | .float value => some (floatText value)
  | .boolean value => some (if value then "true" else "false")
  | .list _ => none
  | .table _ => none

/-- The truth value that a text counts as. The case of ASCII letters does not count. -/
def flagOfText? (text : String) : Option Bool :=
  let word := text.toLower
  if ["1", "true", "on", "yes"].contains word then some true
  else if ["0", "false", "off", "no"].contains word then some false
  else none

/-- The truth value that a value counts as. -/
def toFlag? : SettingValue → Option Bool
  | .boolean value => some value
  | .integer value => some (value != 0)
  | .text value => flagOfText? value
  | .float _ => none
  | .list _ => none
  | .table _ => none

/-- The policy that a value names: as a text, or as the only name in a table. -/
def toPolicy? : SettingValue → Option InvalidRulePolicy
  | .text name => InvalidRulePolicy.ofName? name
  | .table [(name, _)] => InvalidRulePolicy.ofName? name
  | _ => none

/-- The value that stands for a field: the entry of its name in a table, or the item at its
place in a list. -/
def field? (value : SettingValue) (place : Nat) (name : String) : Option SettingValue :=
  match value with
  | .table entries => entries.lookup name
  | .list items => items[place]?
  | _ => none

/-- Whether a value can hold fields. -/
def isSection : SettingValue → Bool
  | .table _ => true
  | .list _ => true
  | _ => false

end SettingValue

/-! ## Sections -/

/-- Reads a setting from the value that is written for it, or else takes its default. -/
def settingOr {α : Type} (absent : α) (convert : SettingValue → Option α)
    (written : Option SettingValue) : Option α :=
  match written with
  | some value => convert value
  | none => some absent

/-- The settings of calculations in a section. -/
def EngineSettings.ofSection? (value : SettingValue) : Option EngineSettings := do
  if !value.isSection then none
  let defaults : EngineSettings := {}
  let defaultCurrency ← settingOr defaults.defaultCurrency SettingValue.toText?
    (value.field? 0 "default_currency")
  let invalidRulePolicy ← settingOr defaults.invalidRulePolicy SettingValue.toPolicy?
    (value.field? 1 "invalid_rule_policy")
  let traceEnabled ← settingOr defaults.traceEnabled SettingValue.toFlag?
    (value.field? 2 "trace_enabled")
  return { defaultCurrency, invalidRulePolicy, traceEnabled }

/-- The settings of logs and counters in a section. -/
def ObservabilitySettings.ofSection? (value : SettingValue) : Option ObservabilitySettings := do
  if !value.isSection then none
  let defaults : ObservabilitySettings := {}
  let serviceName ← settingOr defaults.serviceName SettingValue.toText?
    (value.field? 0 "service_name")
  let logLevel ← settingOr defaults.logLevel SettingValue.toText? (value.field? 1 "log_level")
  let jsonLogs ← settingOr defaults.jsonLogs SettingValue.toFlag? (value.field? 2 "json_logs")
  let metricsEnabled ← settingOr defaults.metricsEnabled SettingValue.toFlag?
    (value.field? 3 "metrics_enabled")
  return { serviceName, logLevel, jsonLogs, metricsEnabled }

/-- The settings of a service in a table; there are none if a value has the wrong type. -/
def ServiceSettings.ofEntries? (entries : List (String × SettingValue)) :
    Option ServiceSettings := do
  let defaults : ServiceSettings := {}
  let serviceName ← settingOr defaults.serviceName SettingValue.toText?
    (entries.lookup "service_name")
  let environment ← settingOr defaults.environment SettingValue.toText?
    (entries.lookup "environment")
  let engine ← settingOr defaults.engine EngineSettings.ofSection? (entries.lookup "engine")
  let observability ← settingOr defaults.observability ObservabilitySettings.ofSection?
    (entries.lookup "observability")
  return { serviceName, environment, engine, observability }

end Tariff
