/-
# One day after the other

Days come in the order of their years, months and days of the month. No day lies between a day and
the day before it, at the ends of months and years and in leap years as everywhere.

* `isDate_iff` : which days there are;
* `lt_iff_parts` : the order of days by their parts;
* `previous?_cases` : the parts of the day before a day;
* `previous?_eq_some_iff` : the day before a day is the last of all earlier days;
* `le_iff_lt_of_previous?` : the days up to it are those before the day.
-/
import Tariff.Calendar.Timestamp

namespace Tariff

/-! ## The days there are -/

/-- A month has 28 to 31 days. -/
theorem daysInMonth_bounds (year : Int) (month : Nat) :
    28 ≤ daysInMonth year month ∧ daysInMonth year month ≤ 31 := by
  unfold daysInMonth
  repeat' split
  all_goals decide

/-- The last month of a year has 31 days. -/
theorem daysInMonth_december (year : Int) : daysInMonth year 12 = 31 := rfl

/-- A day exists if its year is in range, its month is one of twelve, and the month has it. -/
theorem isDate_iff {year : Int} {month day : Nat} :
    isDate year month day = true ↔ (firstYear ≤ year ∧ year ≤ lastYear) ∧
      (1 ≤ month ∧ month ≤ 12) ∧ 1 ≤ day ∧ day ≤ daysInMonth year month := by
  simp [isDate, and_assoc]

namespace Date

variable {d before other : Date}

/-- Parts that make up a day are the parts of that day. -/
theorem ofParts?_eq_some_iff {year : Int} {month day : Nat} :
    ofParts? year month day = some d ↔ d.year = year ∧ d.month = month ∧ d.day = day := by
  unfold ofParts?
  split
  · next h =>
    obtain ⟨dyear, dmonth, dday, dvalid⟩ := d
    simp [eq_comm]
  · next h =>
    simp only [reduceCtorEq, false_iff]
    rintro ⟨rfl, rfl, rfl⟩
    exact h d.valid

/-- Parts that are none of a day make up none. -/
theorem ofParts?_eq_none_iff {year : Int} {month day : Nat} :
    ofParts? year month day = none ↔ ¬ isDate year month day = true := by
  unfold ofParts?
  split
  · next h => simp [h]
  · next h => simp [h]

/-! ## The order of days -/

/-- A day is no later than another one unless that one is earlier. -/
theorem le_iff_not_lt : d ≤ other ↔ ¬ other < d := Int.not_lt.symm

/-- A day before another one is before all that follow it. -/
theorem le_of_lt_of_le {later : Date} (hlt : d < other) (hle : other ≤ later) : d ≤ later :=
  Int.le_of_lt (Int.lt_of_lt_of_le hlt hle)

/-- Of two days the one of the earlier year comes first, then that of the earlier month, and then
the earlier one of the month. -/
theorem lt_iff_parts :
    d < other ↔ d.year < other.year ∨ d.year = other.year ∧
      (d.month < other.month ∨ d.month = other.month ∧ d.day < other.day) := by
  obtain ⟨-, hmonth, hday⟩ := isDate_iff.mp d.valid
  obtain ⟨-, hmonth', hday'⟩ := isDate_iff.mp other.valid
  have hbound := (daysInMonth_bounds d.year d.month).2
  have hbound' := (daysInMonth_bounds other.year other.month).2
  show d.rank < other.rank ↔ _
  rw [rank, rank]
  omega

/-- Different days come one after the other. -/
theorem eq_of_not_lt (hd : ¬ d < other) (hother : ¬ other < d) : d = other := by
  rw [lt_iff_parts] at hd hother
  obtain ⟨year, month, day, hvalid⟩ := d
  obtain ⟨year', month', day', hvalid'⟩ := other
  simp only [Date.mk.injEq]
  dsimp only at hd hother
  omega

/-! ## The day before a day -/

/-- After the last day of a month there is no other day of the month. -/
theorem day_le_of_last (hlast : d.day = daysInMonth d.year d.month) (other : Date) :
    other.year = d.year → other.month = d.month → other.day ≤ d.day := by
  intro hyear hmonth
  obtain ⟨-, -, hday⟩ := isDate_iff.mp other.valid
  rw [hlast, ← hyear, ← hmonth]
  exact hday.2

/-- The day before a day is in the same month, or the last of the month before in the same year, or
the last of the year before. -/
theorem previous?_cases (h : d.previous? = some before) :
    (before.year = d.year ∧ before.month = d.month ∧ before.day + 1 = d.day) ∨
    d.day = 1 ∧ before.day = daysInMonth before.year before.month ∧
      ((before.year = d.year ∧ before.month + 1 = d.month) ∨
        d.month = 1 ∧ before.year + 1 = d.year ∧ before.month = 12) := by
  obtain ⟨-, hmonths, hdays⟩ := isDate_iff.mp d.valid
  unfold previous? at h
  split at h
  · obtain ⟨hyear, hmonth, hday⟩ := ofParts?_eq_some_iff.mp h
    omega
  split at h
  · obtain ⟨hyear, hmonth, hday⟩ := ofParts?_eq_some_iff.mp h
    rw [← hyear, ← hmonth] at hday
    omega
  · obtain ⟨hyear, hmonth, hday⟩ := ofParts?_eq_some_iff.mp h
    have hlast : before.day = daysInMonth before.year before.month := by
      rw [hday, hmonth, daysInMonth_december]
    omega

/-- The day before a day is earlier. -/
theorem lt_of_previous? (h : d.previous? = some before) : before < d := by
  rw [lt_iff_parts]
  rcases previous?_cases h with hmonth | ⟨-, -, hyear | ⟨-, hlast⟩⟩
  · omega
  · omega
  · omega

/-- No day lies between a day and the one before it. -/
theorem le_of_previous? (h : d.previous? = some before) (hlt : other < d) : other ≤ before := by
  rw [lt_iff_parts] at hlt
  rw [le_iff_not_lt, lt_iff_parts]
  obtain ⟨-, hmonths, hdays⟩ := isDate_iff.mp other.valid
  rcases previous?_cases h with hsame | ⟨hfirst, hlast, hbefore⟩
  · omega
  · have hday := day_le_of_last hlast other
    omega

/-- Before the first day of the calendar there is none. -/
theorem le_of_previous?_eq_none (h : d.previous? = none) : d ≤ other := by
  obtain ⟨hyears, hmonths, hdays⟩ := isDate_iff.mp d.valid
  obtain ⟨hyears', hmonths', hdays'⟩ := isDate_iff.mp other.valid
  unfold previous? at h
  split at h
  · rw [ofParts?_eq_none_iff, isDate_iff] at h
    omega
  split at h
  · rw [ofParts?_eq_none_iff, isDate_iff] at h
    have hbounds := daysInMonth_bounds d.year (d.month - 1)
    omega
  · rw [ofParts?_eq_none_iff, isDate_iff, daysInMonth_december] at h
    rw [le_iff_not_lt, lt_iff_parts]
    omega

/-- **The day before a day** is the last of all earlier days. -/
theorem previous?_eq_some_iff :
    d.previous? = some before ↔ before < d ∧ ∀ other, other < d → other ≤ before := by
  constructor
  · intro h
    exact ⟨lt_of_previous? h, fun other => le_of_previous? h⟩
  · rintro ⟨hlt, hlast⟩
    cases h : d.previous? with
    | none => exact absurd hlt (le_iff_not_lt.mp (le_of_previous?_eq_none h))
    | some last =>
      have hle := hlast last (lt_of_previous? h)
      rw [eq_of_not_lt (le_iff_not_lt.mp hle) (le_iff_not_lt.mp (le_of_previous? h hlt))]

/-- The days up to the day before a day are those before the day. -/
theorem le_iff_lt_of_previous? (h : d.previous? = some before) : other ≤ before ↔ other < d := by
  obtain ⟨hlt, hlast⟩ := previous?_eq_some_iff.mp h
  constructor
  · intro hle
    exact Int.lt_of_le_of_lt hle hlt
  · exact hlast other

end Date

end Tariff
