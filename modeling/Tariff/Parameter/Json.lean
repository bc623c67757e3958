/-
# Parameters in JSON

A parameter value is read whole before it is looked at. Integers of 64 bits stay integers; of
other numbers the shortest text is read as a decimal, and only what no decimal can hold stays
a double. Decimals are written as texts.
-/
import Tariff.Json.Reader
import Tariff.Parameter.Bag

namespace Tariff

namespace ParameterValue

/-- The parameter value for a number. -/
def ofNumber (number : JsonNumber) : ParameterValue :=
  let other := match Decimal.ofText number.toText, number with
    | .ok value, _ => .decimal value
    | .error _, .integer value => .float (Float.ofInt value)
    | .error _, .float value => .float value
  match number with
  | .integer value => if fitsSigned 64 value then .integer (Int64.ofInt value) else other
  | .float _ => other

/-- The parameter value for a JSON value. -/
def ofJson : Json → Except JsonFault ParameterValue
  | .null => .ok .null
  | .boolean value => .ok (.boolean value)
  | .text value => .ok (.text value)
  | .number value => .ok (ofNumber value)
  | .array _ => .error (.mismatch .arrayAsParameter)
  | .object _ => .error (.mismatch .objectAsParameter)

/-- Reads a parameter value. -/
def read : JsonReader ParameterValue := fun room draft => do
  let value ← draft.toJson room
  ofJson value

/-- The JSON value for a double; infinities and NaN have none but null. -/
def floatToJson (value : Float) : Json :=
  if value.isFinite then .number (.float value) else .null

/-- The JSON value that a parameter value is written as. -/
def toJson : ParameterValue → Json
  | .decimal value => .text value.toText
  | .integer value => .integer value.toInt
  | .float value => floatToJson value
  | .text value => .text value
  | .boolean value => .boolean value
  | .null => .null

end ParameterValue

namespace ParameterBag

/-- Reads a bag: an object of parameter values, where the last value of a name counts. -/
def read : JsonReader ParameterBag := fun room draft =>
  (JsonReader.map ParameterValue.read room draft).map Table.ofList

/-- Reads a bag from a text. -/
def ofText (text : String) : Except RuleError ParameterBag :=
  (readJson read text).mapError .unreadable

/-- The JSON object that a bag is written as. -/
def toJson (bag : ParameterBag) : Json :=
  .object (bag.entries.map fun entry => (entry.1, entry.2.toJson))

end ParameterBag

end Tariff
