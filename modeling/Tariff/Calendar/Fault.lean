/-
# Faults of dates and times
-/

namespace Tariff

/-- Why a text is not a date or a point in time. -/
inductive CalendarFault where
  | unfinished
  | malformed
  | trailing
  | outOfRange
  | noSuchInstant
  deriving DecidableEq

/-- The wording of a fault. -/
def CalendarFault.message : CalendarFault → String
  | .unfinished => "premature end of input"
  | .malformed => "input contains invalid characters"
  | .trailing => "trailing input"
  | .outOfRange => "input is out of range"
  | .noSuchInstant => "no possible date and time matching input"

end Tariff
