/-
# Parameter values

The values that callers supply and rules declare as defaults. A formula sees them as decimals:
numbers are converted, truth values count as one and zero, and a text counts if it spells a
plain decimal number.
-/
import Tariff.Decimal.Binary
import Tariff.Decimal.Text
import Tariff.Text.Blank

namespace Tariff

/-- The types of parameter values. -/
inductive ValueKind where
  | decimal
  | integer
  | float
  | text
  | boolean
  | null
  deriving DecidableEq

/-- The name of a type. -/
def ValueKind.name : ValueKind → String
  | .decimal => "decimal"
  | .integer => "integer"
  | .float => "float"
  | .text => "text"
  | .boolean => "boolean"
  | .null => "null"

/-- A parameter value. Integers are those of 64 bits. -/
inductive ParameterValue where
  | decimal (value : Decimal)
  | integer (value : Int64)
  | float (value : Float)
  | text (value : String)
  | boolean (value : Bool)
  | null

/-- An optional sign, digits, and optionally a point with digits behind it. Digits of any script
will do here; it is the reader of decimals that insists on those of ASCII. -/
def isPlainNumber (cs : List Char) : Bool :=
  let unsigned := match cs with
    | '+' :: rest => rest
    | '-' :: rest => rest
    | _ => cs
  let whole := unsigned.takeWhile isDecimalDigit
  let fraction := unsigned.dropWhile isDecimalDigit
  !whole.isEmpty && match fraction with
    | [] => true
    | '.' :: digits => !digits.isEmpty && digits.all isDecimalDigit
    | _ => false

namespace ParameterValue

/-- The type of a value. -/
def kind : ParameterValue → ValueKind
  | .decimal _ => .decimal
  | .integer _ => .integer
  | .float _ => .float
  | .text _ => .text
  | .boolean _ => .boolean
  | .null => .null

/-- The text of a text value. -/
def asText? : ParameterValue → Option String
  | .text value => some value
  | _ => none

/-- The decimal that a text spells, blank characters around it aside. -/
def textToDecimal? (s : String) : Option Decimal :=
  let trimmed := trimBlanks s.toList
  if isPlainNumber trimmed then (Decimal.ofText (String.ofList trimmed)).toOption else none

/-- The decimal that a value counts as. -/
def toDecimal? : ParameterValue → Option Decimal
  | .decimal value => some value
  | .integer value => Decimal.ofInt? value.toInt
  | .float value => Decimal.ofFloat? value
  | .text value => textToDecimal? value
  | .boolean true => some Decimal.one
  | .boolean false => some Decimal.zero
  | .null => none

end ParameterValue

end Tariff
