/-
# Dates

Days of the Gregorian calendar, extended to all years from -262143 to 262142. Year 0 comes
before year 1.
-/

namespace Tariff

/-- Whether a year of the Gregorian calendar has a 29 February. -/
def isLeapYear (year : Int) : Bool := year % 4 == 0 && (year % 100 != 0 || year % 400 == 0)

/-- The number of days of a month, 1 for January. -/
def daysInMonth (year : Int) (month : Nat) : Nat :=
  match month with
  | 2 => if isLeapYear year then 29 else 28
  | 4 | 6 | 9 | 11 => 30
  | _ => 31

/-- The first year of the calendar. -/
def firstYear : Int := -262143

/-- The last year of the calendar. -/
def lastYear : Int := 262142

/-- Whether there is such a day. -/
def isDate (year : Int) (month day : Nat) : Bool :=
  decide (firstYear ≤ year) && decide (year ≤ lastYear) &&
    decide (1 ≤ month) && decide (month ≤ 12) &&
    decide (1 ≤ day) && decide (day ≤ daysInMonth year month)

/-- A day of the calendar. -/
structure Date where
  year : Int
  month : Nat
  day : Nat
  valid : isDate year month day = true
  deriving DecidableEq

namespace Date

/-- The day of a year, a month and a day of the month, if there is one. -/
def ofParts? (year : Int) (month day : Nat) : Option Date :=
  if h : isDate year month day = true then some ⟨year, month, day, h⟩ else none

/-- The place of a day among slots of 31 days, twelve a year: a later day has a higher rank. -/
def rank (d : Date) : Int := (d.year * 12 + d.month) * 31 + d.day

instance : LE Date := ⟨fun a b => a.rank ≤ b.rank⟩

instance : LT Date := ⟨fun a b => a.rank < b.rank⟩

instance (a b : Date) : Decidable (a ≤ b) := inferInstanceAs (Decidable (a.rank ≤ b.rank))

instance (a b : Date) : Decidable (a < b) := inferInstanceAs (Decidable (a.rank < b.rank))

/-- The decimal digits of a number, with zeros in front up to a width. -/
def padded (width n : Nat) : String :=
  let digits := Nat.toDigits 10 n
  String.ofList (List.replicate (width - digits.length) '0' ++ digits)

/-- Year, month and day. Years take four digits; those outside 0 to 9999 also take a sign. -/
def toText (d : Date) : String :=
  let year :=
    if 0 ≤ d.year ∧ d.year ≤ 9999 then padded 4 d.year.natAbs
    else (if d.year < 0 then "-" else "+") ++ padded 4 d.year.natAbs
  s!"{year}-{padded 2 d.month}-{padded 2 d.day}"

instance : ToString Date := ⟨toText⟩

end Date

end Tariff
