/-
# Faults of JSON texts

Reading a JSON text as something of the domain can fail in three ways: the text is malformed,
it ends too early, or it is well formed and says something else.
-/
import Tariff.Calendar.Fault
import Tariff.Decimal.Text
import Tariff.Text.Quoted

namespace Tariff

/-- What was found where something else was expected. -/
inductive Found where
  | null
  | boolean (value : Bool)
  | integer (value : Int)
  | floatingPoint (digits : String)
  | text (value : String)
  | sequence
  | map
  deriving DecidableEq

/-- How a message describes what was found. -/
def Found.describe : Found → String
  | .null => "null"
  | .boolean value => s!"boolean `{value}`"
  | .integer value => s!"integer `{value}`"
  | .floatingPoint digits => s!"floating point `{digits}`"
  | .text value => "string " ++ quoted value
  | .sequence => "sequence"
  | .map => "map"

/-- A well-formed text that does not say what it should. -/
inductive Mismatch where
  | wrongType (found : Found) (expected : String)
  | wrongValue (found : Found) (expected : String)
  | wrongLength (found : Nat) (expected : String)
  | unknownVariant (found : String) (known : List String)
  | missingField (name : String)
  | repeatedField (name : String)
  | calendar (fault : CalendarFault)
  | arrayAsParameter
  | objectAsParameter
  deriving DecidableEq

/-- The wording of a mismatch. -/
def Mismatch.message : Mismatch → String
  | .wrongType found expected => s!"invalid type: {found.describe}, expected {expected}"
  | .wrongValue found expected => s!"invalid value: {found.describe}, expected {expected}"
  | .wrongLength found expected => s!"invalid length {found}, expected {expected}"
  | .unknownVariant found known =>
    let names := ", ".intercalate (known.map fun name => s!"`{name}`")
    s!"unknown variant `{found}`, expected one of {names}"
  | .missingField name => s!"missing field `{name}`"
  | .repeatedField name => s!"duplicate field `{name}`"
  | .calendar fault => fault.message
  | .arrayAsParameter => "参数值不支持数组"
  | .objectAsParameter => "参数值不支持对象"

/-- Why a JSON text could not be read. -/
inductive JsonFault where
  | malformed
  | unfinished
  | mismatch (cause : Mismatch)
  deriving DecidableEq

/-- The wording of a fault. -/
def JsonFault.message : JsonFault → String
  | .malformed => "malformed text"
  | .unfinished => "unexpected end of text"
  | .mismatch cause => cause.message

end Tariff
