/-
# Dates in texts

Dates are read leniently: white space may stand before each number, before each dash and at
the end, and numbers need not be padded. A year has at most four digits unless it has a sign.
-/
import Tariff.Calendar.Date
import Tariff.Calendar.Fault
import Tariff.Power
import Tariff.Text.Blank
import Tariff.Text.Digits

namespace Tariff

/-- A reader of a part of a text: what was read, and the rest. -/
abbrev CalendarReader (α : Type) := List Char → Except CalendarFault (α × List Char)

namespace CalendarReader

/-- Leaves out the blank characters at the front. -/
def skipBlanks (cs : List Char) : List Char := cs.dropWhile isBlank

/-- Takes in up to `width` further digits of a number, which has to fit 64 bits. -/
def digits (value : Nat) : Nat → CalendarReader Nat
  | 0, cs => .ok (value, cs)
  | _ + 1, [] => .ok (value, [])
  | width + 1, c :: cs =>
    if c.isDigit then
      let longer := value * 10 + digitValue c
      if longer < twoPow 63 then digits longer width cs else .error .outOfRange
    else .ok (value, c :: cs)

/-- Reads a number of at least one and at most `width` digits. -/
def number (width : Nat) : CalendarReader Nat := fun cs =>
  match cs with
  | [] => .error .unfinished
  | c :: _ => if c.isDigit then digits 0 width cs else .error .malformed

/-- Reads a number of at most `width` digits, which has to lie within bounds, after blanks. -/
def bounded (width low high : Nat) : CalendarReader Nat := fun cs => do
  let (value, rest) ← number width (skipBlanks cs)
  if low ≤ value ∧ value ≤ high then return (value, rest) else throw .outOfRange

/-- Reads the given character after blanks. -/
def mark (expected : Char) (cs : List Char) : Except CalendarFault (List Char) :=
  match skipBlanks cs with
  | [] => .error .unfinished
  | c :: rest => if c = expected then .ok rest else .error .malformed

/-- Reads a year after blanks. One with a sign may have any number of digits. -/
def year : CalendarReader Int := fun cs => do
  let (value, rest) ← match skipBlanks cs with
    | '-' :: rest => do
      let (value, rest) ← number rest.length rest
      pure (-(value : Int), rest)
    | '+' :: rest => do
      let (value, rest) ← number rest.length rest
      pure ((value : Int), rest)
    | cs => do
      let (value, rest) ← number 4 cs
      pure ((value : Int), rest)
  if fitsSigned 32 value then return (value, rest) else throw .outOfRange

/-- Reads year, month and day, without checking that there is such a day. -/
def dateParts : CalendarReader (Int × Nat × Nat) := fun cs => do
  let (year, cs) ← year cs
  let cs ← mark '-' cs
  let (month, cs) ← bounded 2 1 12 cs
  let cs ← mark '-' cs
  let (day, cs) ← bounded 2 1 31 cs
  return ((year, month, day), cs)

end CalendarReader

/-- Reads a date. -/
def Date.ofText (text : String) : Except CalendarFault Date := do
  let ((year, month, day), rest) ← CalendarReader.dateParts text.toList
  if !(CalendarReader.skipBlanks rest).isEmpty then throw .trailing
  match Date.ofParts? year month day with
  | some date => return date
  | none => throw .outOfRange

end Tariff
