/-
# Layers of settings

Settings come in layers: the names that the caller gives, three files, and the environment.
A later layer overrides an earlier one key by key: a table is merged into the table that was there,
and in all other cases the later value takes the place of the earlier one.
-/
import Tariff.Settings.Value
import Tariff.Toml.Document

namespace Tariff

/-- Settings as they are written. -/
abbrev SettingEntries := List (String × SettingValue)

/-! ## Overriding -/

/-- Gives a key a value, in place of the one that it may have. -/
def SettingEntries.put (entries : SettingEntries) (key : String) (value : SettingValue) :
    SettingEntries :=
  if (entries.lookup key).isSome then
    entries.map fun entry => if entry.1 = key then (key, value) else entry
  else entries ++ [(key, value)]

/-- What is written for the keys of a table that another value may be. -/
def innerEntries (value : Option SettingValue) : SettingEntries :=
  (value.map SettingValue.entries).getD []

mutual

/-- Lays a value over another one. A table stays a table, also without entries, and takes up the
entries of the table that was there. -/
def SettingValue.over (base : Option SettingValue) : SettingValue → SettingValue
  | .table entries => .table (overlay (innerEntries base) entries)
  | .text value => .text value
  | .integer value => .integer value
  | .float value => .float value
  | .boolean value => .boolean value
  | .list items => .list items

/-- Lays entries over others, key by key. -/
def overlay (base : SettingEntries) : List (String × SettingValue) → SettingEntries
  | [] => base
  | (key, value) :: entries =>
    overlay (SettingEntries.put base key (SettingValue.over (base.lookup key) value)) entries

end

/-- Lays a value over what is written at the end of a path. -/
def overlayAt (base : SettingEntries) (value : SettingValue) : List String → SettingEntries
  | [] => base
  | [key] => SettingEntries.put base key (SettingValue.over (base.lookup key) value)
  | key :: path =>
    SettingEntries.put base key (.table (overlayAt (innerEntries (base.lookup key)) value path))

/-! ## Keys of layers -/

/-- The characters of the names in a path. -/
def isPathPart (c : Char) : Bool := c.isAlphanum || c == '_' || c == '-'

/-- Splits a text at its points; `read` holds the characters before, the last one first. -/
def splitAtPoints (read : List Char) : List Char → List String
  | [] => [String.ofList read.reverse]
  | c :: cs =>
    if c == '.' then String.ofList read.reverse :: splitAtPoints [] cs
    else splitAtPoints (c :: read) cs

/-- The path that a key of a layer stands for: names with points between them. Any other key
stands for itself. -/
def settingPath (key : String) : List String :=
  let names := splitAtPoints [] key.toList
  if names.all fun name => name != "" && name.toList.all isPathPart then names else [key]

/-- Lays a layer over others. -/
def overlayLayer (base layer : SettingEntries) : SettingEntries :=
  layer.foldl (fun entries (key, value) => overlayAt entries value (settingPath key)) base

/-! ## Environment -/

/-- How the names of environment variables begin that are settings, in lower case. -/
def variableStart : List Char := ['v', 'a', 't', '_']

/-- Writes a point for every two underscores. -/
def pointedName : List Char → List Char
  | '_' :: '_' :: cs => '.' :: pointedName cs
  | c :: cs => c :: pointedName cs
  | [] => []

/-- The key that the name of an environment variable stands for, if it is a setting. The case
of letters does not count. -/
def variableKey? (name : String) : Option String :=
  let lower := name.toLower.toList
  if variableStart.isPrefixOf lower then
    some (String.ofList (pointedName (lower.drop variableStart.length)))
  else none

/-- The integer of 64 bits that a text spells. -/
def boundedIntegerOfText? (text : String) : Option Int :=
  let (negative, digits) := splitSign text.toList
  let value : Int := if negative then -(digitsValue digits : Int) else digitsValue digits
  if !digits.isEmpty && digits.all Char.isDigit && fitsSigned 64 value then some value else none

/-- The value of an environment variable: a truth value, an integer or a number if its text
spells one, and else the text. -/
def variableValue (text : String) : SettingValue :=
  if text.toLower == "true" then .boolean true
  else if text.toLower == "false" then .boolean false
  else
    match boundedIntegerOfText? text, floatOfNumeral? text with
    | some value, _ => .integer value
    | none, some value => .float value
    | none, none => .text text

/-- The settings in environment variables. -/
def environmentLayer (vars : List (String × String)) : SettingEntries :=
  vars.filterMap fun (name, text) =>
    (variableKey? name).map fun key => (key, variableValue text)

/-! ## All layers -/

/-- Why settings cannot be loaded. -/
inductive SettingsFault where
  /-- A file is not TOML. -/
  | unreadable
  /-- A value has the wrong type. -/
  | mistyped
  deriving DecidableEq

/-- The settings that follow from the names of service and environment. -/
def nameLayer (service environment : String) : SettingEntries :=
  [("service_name", .text service), ("environment", .text environment),
    ("observability", .table [("service_name", .text service)])]

/-- The names of the files that hold settings, the last of which counts most. -/
def layerNames (service environment : String) : List String := ["default", environment, service]

/-- The settings in the file of a name. A file that is absent holds none, and without a name
there is no file. -/
def fileLayer (files : String → Option String) (name : String) :
    Except SettingsFault SettingEntries :=
  if name.isEmpty then .ok []
  else
    match files (name ++ ".toml") with
    | none => .ok []
    | some text =>
      match Toml.document? text with
      | some entries => .ok entries
      | none => .error .unreadable

/-- Lays files over what is written. -/
def overlayFiles (files : String → Option String) (base : SettingEntries) :
    List String → Except SettingsFault SettingEntries
  | [] => .ok base
  | name :: names => do
    let layer ← fileLayer files name
    overlayFiles files (overlayLayer base layer) names

namespace ServiceSettings

/-- Loads the settings of a service in an environment. -/
def load (files : String → Option String) (vars : List (String × String))
    (service environment : String) : Except SettingsFault ServiceSettings := do
  let written ← overlayFiles files (nameLayer service environment) (layerNames service environment)
  match ofEntries? (overlayLayer written (environmentLayer vars)) with
  | some settings => return settings
  | none => throw .mistyped

/-- The environment that the variables name. -/
def environmentOf (vars : List (String × String)) : String :=
  (vars.lookup "VAT_ENV").getD "development"

/-- Loads the settings of a service in the environment that the variables name. -/
def loadNamed (files : String → Option String) (vars : List (String × String))
    (service : String) : Except SettingsFault ServiceSettings :=
  load files vars service (environmentOf vars)

end ServiceSettings

end Tariff
