/-
# Points in time

A point in time is a date and a time of day in universal time, to the nanosecond. Minutes may
have a sixty-first second. Texts may give a time in any zone, as its distance from universal
time in hours and minutes.
-/
import Tariff.Calendar.Text

namespace Tariff

/-! ## Neighbouring days -/

namespace Date

/-- The day after. -/
def next? (d : Date) : Option Date :=
  if d.day < daysInMonth d.year d.month then ofParts? d.year d.month (d.day + 1)
  else if d.month < 12 then ofParts? d.year (d.month + 1) 1
  else ofParts? (d.year + 1) 1 1

/-- The day before. -/
def previous? (d : Date) : Option Date :=
  if 1 < d.day then ofParts? d.year d.month (d.day - 1)
  else if 1 < d.month then ofParts? d.year (d.month - 1) (daysInMonth d.year (d.month - 1))
  else ofParts? (d.year - 1) 12 31

end Date

/-- A point in time. -/
structure Timestamp where
  date : Date
  minute : Nat
  second : Nat
  nanosecond : Nat
  deriving DecidableEq

namespace Timestamp

/-! ## Reading -/

/-- Reads the fraction of a second, if there is one: nine digits count, more are left out. -/
def fraction : CalendarReader Nat := fun cs =>
  match cs with
  | '.' :: rest => do
    let (value, after) ← CalendarReader.number 9 rest
    let nanosecond := value * tenPow (9 - (rest.length - after.length))
    return (nanosecond, after.dropWhile Char.isDigit)
  | _ => .ok (0, cs)

/-- Reads two digits; what follows them stays. -/
def twoDigits : CalendarReader (Nat × Nat) := fun cs =>
  match cs with
  | [] => .error .unfinished
  | [c] => .error (if c.utf8Size < 2 then .unfinished else .malformed)
  | a :: b :: rest =>
    if a.isDigit && b.isDigit then .ok ((digitValue a, digitValue b), rest)
    else .error .malformed

/-- Reads the hours and minutes of a zone, as minutes. -/
def zoneMinutes : CalendarReader Nat := fun cs => do
  let ((a, b), rest) ← twoDigits cs
  let ((c, d), rest) ← twoDigits (rest.dropWhile fun c => c == ':' || isBlank c)
  if 5 < c then throw .outOfRange
  return ((a * 10 + b) * 60 + c * 10 + d, rest)

/-- Whether a text begins with `UTC`, in whatever case. -/
def beginsUniversal (cs : List Char) : Bool := (cs.take 3).map Char.toUpper == ['U', 'T', 'C']

/-- Reads a zone: its minutes east of universal time. -/
def zone : CalendarReader Int := fun cs =>
  if beginsUniversal cs then .ok (0, cs.drop 3)
  else
    match cs with
    | [] => .error .unfinished
    | 'Z' :: rest => .ok (0, rest)
    | 'z' :: rest => .ok (0, rest)
    | '+' :: rest => (zoneMinutes rest).map fun (minutes, rest) => ((minutes : Int), rest)
    | '-' :: rest => (zoneMinutes rest).map fun (minutes, rest) => (-(minutes : Int), rest)
    | '−' :: rest => (zoneMinutes rest).map fun (minutes, rest) => (-(minutes : Int), rest)
    | _ => .error .malformed

/-- The point in time of a local date and time in a zone. -/
def ofLocal (date : Date) (minute : Nat) (east : Int) (second nanosecond : Nat) :
    Except CalendarFault Timestamp :=
  let universal : Int := minute - east
  let shifted :=
    if universal < 0 then date.previous?
    else if 1440 ≤ universal then date.next?
    else some date
  match shifted with
  | some date => .ok ⟨date, (universal % 1440).toNat, second, nanosecond⟩
  | none => .error .noSuchInstant

/-- Reads a point in time: date, `T` or a space, time, and zone. -/
def ofText (text : String) : Except CalendarFault Timestamp := do
  let ((year, month, day), rest) ← CalendarReader.dateParts text.toList
  let rest ← match rest with
    | [] => throw .unfinished
    | c :: rest => if c == 't' || c == 'T' || c == ' ' then pure rest else throw .malformed
  let (hour, rest) ← CalendarReader.bounded 2 0 23 rest
  let rest ← CalendarReader.mark ':' rest
  let (minute, rest) ← CalendarReader.bounded 2 0 59 rest
  let rest ← CalendarReader.mark ':' rest
  let (second, rest) ← CalendarReader.bounded 2 0 60 rest
  let (nanosecond, rest) ← fraction rest
  let (east, rest) ← zone (CalendarReader.skipBlanks rest)
  if !(CalendarReader.skipBlanks rest).isEmpty then throw .trailing
  if 1440 ≤ east.natAbs then throw .outOfRange
  match Date.ofParts? year month day with
  | some date => ofLocal date (hour * 60 + minute) east second nanosecond
  | none => throw .outOfRange

/-! ## Writing -/

/-- The fraction of a second with three, six or nine digits, whichever show all of it. -/
def fractionText (nanosecond : Nat) : String :=
  if nanosecond = 0 then ""
  else if nanosecond % 1000000 = 0 then "." ++ Date.padded 3 (nanosecond / 1000000)
  else if nanosecond % 1000 = 0 then "." ++ Date.padded 6 (nanosecond / 1000)
  else "." ++ Date.padded 9 nanosecond

/-- A point in time in universal time. -/
def toText (t : Timestamp) : String :=
  let hour := Date.padded 2 (t.minute / 60)
  let minute := Date.padded 2 (t.minute % 60)
  let second := Date.padded 2 t.second
  s!"{t.date}T{hour}:{minute}:{second}{fractionText t.nanosecond}Z"

end Timestamp

end Tariff
