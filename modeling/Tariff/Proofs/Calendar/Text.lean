/-
# Dates and times are read as they were written

A date shows its numbers with zeros in front, a point in time also the fraction of its second, with
as many digits as it needs. Readers take at most so many digits, so they find the same numbers.

* `CalendarReader.digits_append`, `CalendarReader.bounded_padded` : numbers with zeros in front;
* `CalendarReader.year_yearText` : years, with a sign or without;
* `Date.ofText_toText` : dates;
* `Timestamp.ofText_toText` : points in time;
* `Timestamp.wellFormed_of_ofText` : a point in time that has been read can be written.
-/
import Tariff.Calendar.Timestamp
import Tariff.Proofs.Calendar.Days
import Tariff.Proofs.Decimal.Value
import Tariff.Proofs.Outcome
import Tariff.Proofs.Text.Digits

namespace Tariff

/-! ## Numbers -/

/-- A padded number is written with zeros before its digits. -/
theorem toList_padded (width n : Nat) :
    (Date.padded width n).toList =
      List.replicate (width - (Nat.toDigits 10 n).length) '0' ++ Nat.toDigits 10 n :=
  String.toList_ofList

/-- A padded number is written with digits only. -/
theorem isDigit_of_mem_padded {width n : Nat} {c : Char} (h : c ∈ (Date.padded width n).toList) :
    c.isDigit = true := by
  rw [toList_padded] at h
  rcases List.mem_append.mp h with h | h
  · rw [List.eq_of_mem_replicate h]
    rfl
  · exact Nat.isDigit_of_mem_toDigits (by decide) (by decide) h

/-- The digits of a padded number have its value. -/
theorem digitsValue_padded (width n : Nat) : digitsValue (Date.padded width n).toList = n := by
  rw [toList_padded, digitsValue_zeros_append, digitsValue_toDigits]

/-- A padded number has at least one digit. -/
theorem padded_ne_nil (width n : Nat) : (Date.padded width n).toList ≠ [] := by
  rw [toList_padded]
  exact List.append_ne_nil_of_right_ne_nil _ Nat.toDigits_ne_nil

/-- A number that fits into the width is padded to it. -/
theorem length_padded {width n : Nat} (hwidth : 0 < width) (h : n < 10 ^ width) :
    (Date.padded width n).toList.length = width := by
  have hlength := (Nat.length_toDigits_le_iff (b := 10) (by decide) hwidth).mpr h
  rw [toList_padded, List.length_append, List.length_replicate]
  omega

namespace CalendarReader

/-- Digits are taken in up to their end, or up to the width. -/
theorem digits_append {ds rest : List Char} (hds : ∀ c ∈ ds, c.isDigit = true) {width : Nat}
    (hwidth : ds.length ≤ width)
    (hend : ds.length = width ∨ ∀ c ∈ rest.head?, c.isDigit = false) {value : Nat}
    (hlimit : value * tenPow ds.length + digitsValue ds < twoPow 63) :
    digits value width (ds ++ rest) = .ok (value * tenPow ds.length + digitsValue ds, rest) := by
  induction ds generalizing value width with
  | nil =>
    have hvalue : value * tenPow ([] : List Char).length + digitsValue [] = value :=
      Nat.mul_one value
    rw [hvalue, List.nil_append]
    rcases width with _ | width
    · rfl
    · cases rest with
      | nil => rfl
      | cons c rest =>
        have hc : c.isDigit = false := hend.resolve_left (by simp) c rfl
        rw [digits, if_neg (by rw [hc]; exact Bool.false_ne_true)]
  | cons c ds ih =>
    obtain ⟨hc, hds⟩ := List.forall_mem_cons.mp hds
    rcases width with _ | width
    · simp at hwidth
    · rw [shift_digitsValue_cons] at hlimit ⊢
      have hroom : value * 10 + digitValue c < twoPow 63 := by
        have hmul := Nat.le_mul_of_pos_right (value * 10 + digitValue c) (tenPow_pos ds.length)
        omega
      rw [List.cons_append, digits, if_pos hc]
      dsimp only
      rw [if_pos hroom]
      rw [List.length_cons] at hwidth hend
      exact ih hds (by omega) (hend.imp_left (by omega)) hlimit

/-- A number with zeros in front is read up to its end, or up to the width. -/
theorem number_padded {width n : Nat} {rest : List Char} {read : Nat}
    (hwidth : (Date.padded width n).toList.length ≤ read)
    (hend : (Date.padded width n).toList.length = read ∨ ∀ c ∈ rest.head?, c.isDigit = false)
    (hlimit : n < twoPow 63) :
    number read ((Date.padded width n).toList ++ rest) = .ok (n, rest) := by
  have hvalue : 0 * tenPow (Date.padded width n).toList.length +
      digitsValue (Date.padded width n).toList = n := by
    rw [digitsValue_padded, Nat.zero_mul, Nat.zero_add]
  have hread : digits 0 read ((Date.padded width n).toList ++ rest) = .ok (_, rest) :=
    digits_append (fun c => isDigit_of_mem_padded) hwidth hend (by rwa [hvalue])
  obtain ⟨c, others, hcons⟩ := List.exists_cons_of_ne_nil (padded_ne_nil width n)
  have hc : c.isDigit = true := isDigit_of_mem_padded (hcons ▸ List.mem_cons_self)
  rw [hvalue] at hread
  rw [hcons, List.cons_append] at hread ⊢
  rw [number, if_pos hc]
  exact hread

/-- No blanks are passed over before a character that is none. -/
theorem skipBlanks_cons {c : Char} (h : isBlank c = false) (cs : List Char) :
    skipBlanks (c :: cs) = c :: cs :=
  List.dropWhile_cons_of_neg (by rw [h]; exact Bool.false_ne_true)

/-- No blanks are passed over before a padded number. -/
theorem skipBlanks_padded (width n : Nat) (rest : List Char) :
    skipBlanks ((Date.padded width n).toList ++ rest) = (Date.padded width n).toList ++ rest := by
  obtain ⟨c, others, hcons⟩ := List.exists_cons_of_ne_nil (padded_ne_nil width n)
  rw [hcons]
  have hc : c.isDigit = true := isDigit_of_mem_padded (hcons ▸ List.mem_cons_self)
  exact skipBlanks_cons (isBlank_eq_false_of_isDigit hc) _

/-- A number of two digits is read whatever follows it. -/
theorem bounded_padded {n low high : Nat} (hlow : low ≤ n) (hhigh : n ≤ high) (hsmall : n < 100)
    (rest : List Char) : bounded 2 low high ((Date.padded 2 n).toList ++ rest) = .ok (n, rest) := by
  have hlength : (Date.padded 2 n).toList.length = 2 := length_padded (by decide) hsmall
  have hlimit : n < twoPow 63 := Nat.lt_trans hsmall (by decide)
  rw [bounded, skipBlanks_padded, number_padded (by omega) (Or.inl hlength) hlimit]
  exact if_pos ⟨hlow, hhigh⟩

/-- A mark is read where it stands. -/
theorem mark_cons {c : Char} (h : isBlank c = false) (cs : List Char) :
    mark c (c :: cs) = .ok cs := by
  rw [mark, skipBlanks_cons h]
  exact if_pos rfl

end CalendarReader

/-! ## Dates -/

namespace Date

/-- How a year is written: with a sign outside of 0 to 9999. -/
def yearText (year : ℤ) : List Char :=
  (if 0 ≤ year ∧ year ≤ 9999 then [] else if year < 0 then ['-'] else ['+']) ++
    (padded 4 year.natAbs).toList

/-- A date is written as its year, month and day with dashes between them. -/
theorem toList_toText (d : Date) :
    d.toText.toList =
      yearText d.year ++ '-' :: ((padded 2 d.month).toList ++ '-' :: (padded 2 d.day).toList) := by
  unfold toText yearText
  by_cases hplain : 0 ≤ d.year ∧ d.year ≤ 9999
  · rw [if_pos hplain, if_pos hplain]
    simp [toString]
  · rw [if_neg hplain, if_neg hplain]
    by_cases hnegative : d.year < 0
    · rw [if_pos hnegative, if_pos hnegative]
      simp [toString]
    · rw [if_neg hnegative, if_neg hnegative]
      simp [toString]

variable {cs rest : List Char} {n : Nat}

/-- The number of a year, which counts with its sign if it fits. -/
theorem fitting_number {width : Nat} (h : CalendarReader.number width cs = .ok (n, rest))
    (signed : Nat → ℤ) {fits : ℤ → Bool} (hfits : fits (signed n) = true) :
    (do
      let (value, rest) ← CalendarReader.number width cs
      let (value, rest) ← pure (signed value, rest)
      if fits value then return (value, rest) else throw .outOfRange) =
        (Except.ok (signed n, rest) : Except CalendarFault (ℤ × List Char)) := by
  rw [h]
  exact if_pos hfits

/-- A year with a minus sign may have any number of digits. -/
theorem year_minus (h : CalendarReader.number cs.length cs = .ok (n, rest))
    (hfits : fitsSigned 32 (-(n : ℤ)) = true) :
    CalendarReader.year ('-' :: cs) = .ok (-(n : ℤ), rest) := by
  have hstart : CalendarReader.skipBlanks ('-' :: cs) = '-' :: cs :=
    CalendarReader.skipBlanks_cons rfl cs
  unfold CalendarReader.year
  rw [hstart]
  exact fitting_number h (fun n => -(n : ℤ)) hfits

/-- So may a year with a plus sign. -/
theorem year_plus (h : CalendarReader.number cs.length cs = .ok (n, rest))
    (hfits : fitsSigned 32 (n : ℤ) = true) :
    CalendarReader.year ('+' :: cs) = .ok ((n : ℤ), rest) := by
  have hstart : CalendarReader.skipBlanks ('+' :: cs) = '+' :: cs :=
    CalendarReader.skipBlanks_cons rfl cs
  unfold CalendarReader.year
  rw [hstart]
  exact fitting_number h (fun n => (n : ℤ)) hfits

/-- A year without a sign is read up to its fourth digit. -/
theorem year_plain {c : Char} (hc : c.isDigit = true)
    (h : CalendarReader.number 4 (c :: cs) = .ok (n, rest))
    (hfits : fitsSigned 32 (n : ℤ) = true) :
    CalendarReader.year (c :: cs) = .ok ((n : ℤ), rest) := by
  have hstart : CalendarReader.skipBlanks (c :: cs) = c :: cs :=
    CalendarReader.skipBlanks_cons (isBlank_eq_false_of_isDigit hc) cs
  unfold CalendarReader.year
  rw [hstart]
  -- A digit is neither sign.
  split
  · next heq =>
    rw [(List.cons.inj heq).1] at hc
    cases hc
  · next heq =>
    rw [(List.cons.inj heq).1] at hc
    cases hc
  · exact fitting_number h (fun n => (n : ℤ)) hfits

/-- A year is read up to the dash behind it. -/
theorem year_yearText {year : ℤ} (hlow : firstYear ≤ year) (hhigh : year ≤ lastYear)
    (rest : List Char) :
    CalendarReader.year (yearText year ++ '-' :: rest) = .ok (year, '-' :: rest) := by
  unfold firstYear at hlow
  unfold lastYear at hhigh
  have h63 : twoPow 63 = 9223372036854775808 := rfl
  have h31 : (twoPow (32 - 1) : ℤ) = 2147483648 := rfl
  have hlimit : year.natAbs < twoPow 63 := by omega
  have hfits : fitsSigned 32 year = true := by
    rw [fitsSigned, Bool.and_eq_true, decide_eq_true_eq, decide_eq_true_eq, h31]
    omega
  have hend : ∀ c ∈ ('-' :: rest).head?, c.isDigit = false := by
    rintro c hc
    cases hc
    rfl
  -- With a sign, any number of digits is read.
  have hsigned : CalendarReader.number ((padded 4 year.natAbs).toList ++ '-' :: rest).length
      ((padded 4 year.natAbs).toList ++ '-' :: rest) = .ok (year.natAbs, '-' :: rest) :=
    CalendarReader.number_padded (by rw [List.length_append]; omega) (Or.inr hend) hlimit
  unfold yearText
  by_cases hplain : 0 ≤ year ∧ year ≤ 9999
  · have hlength : (padded 4 year.natAbs).toList.length = 4 :=
      length_padded (by decide) (by omega)
    have hnumber : CalendarReader.number 4 ((padded 4 year.natAbs).toList ++ '-' :: rest) =
        .ok (year.natAbs, '-' :: rest) :=
      CalendarReader.number_padded (by omega) (Or.inl hlength) hlimit
    have hyear : (year.natAbs : ℤ) = year := by omega
    obtain ⟨c, others, hcons⟩ := List.exists_cons_of_ne_nil (padded_ne_nil 4 year.natAbs)
    have hc : c.isDigit = true := isDigit_of_mem_padded (hcons ▸ List.mem_cons_self)
    rw [if_pos hplain, List.nil_append]
    rw [hcons, List.cons_append] at hnumber ⊢
    rw [year_plain hc hnumber (hyear.symm ▸ hfits), hyear]
  · rw [if_neg hplain]
    by_cases hnegative : year < 0
    · have hyear : -(year.natAbs : ℤ) = year := by omega
      rw [if_pos hnegative, List.append_assoc, List.singleton_append,
        year_minus hsigned (hyear.symm ▸ hfits), hyear]
    · have hyear : (year.natAbs : ℤ) = year := by omega
      rw [if_neg hnegative, List.append_assoc, List.singleton_append,
        year_plus hsigned (hyear.symm ▸ hfits), hyear]

/-- A date is read whatever follows it. -/
theorem dateParts_toText (d : Date) (rest : List Char) :
    CalendarReader.dateParts (d.toText.toList ++ rest) = .ok ((d.year, d.month, d.day), rest) := by
  obtain ⟨⟨hfirst, hlast⟩, ⟨hmonth, hmonth'⟩, hday, hday'⟩ := isDate_iff.mp d.valid
  have hdays := (daysInMonth_bounds d.year d.month).2
  have htext : d.toText.toList ++ rest = yearText d.year ++ '-' ::
      ((padded 2 d.month).toList ++ '-' :: ((padded 2 d.day).toList ++ rest)) := by
    rw [toList_toText]
    simp only [List.append_assoc, List.cons_append]
  have hdash : isBlank '-' = false := rfl
  rw [htext, CalendarReader.dateParts, year_yearText hfirst hlast]
  simp only [bind, Except.bind, CalendarReader.mark_cons hdash,
    CalendarReader.bounded_padded hmonth hmonth' (by omega : d.month < 100),
    CalendarReader.bounded_padded hday (hday'.trans hdays) (by omega : d.day < 100)]
  rfl

/-- The parts of a date make up the date. -/
theorem ofParts?_self (d : Date) : ofParts? d.year d.month d.day = some d :=
  ofParts?_eq_some_iff.mpr ⟨rfl, rfl, rfl⟩

/-- **A date is read as it was written.** -/
theorem ofText_toText (d : Date) : ofText d.toText = .ok d := by
  have hparts := d.dateParts_toText []
  rw [List.append_nil] at hparts
  simp [ofText, hparts, ofParts?_self, CalendarReader.skipBlanks, bind, Except.bind, pure,
    Except.pure]

end Date

/-! ## Points in time -/

namespace Timestamp

/-- A point in time of a day: a minute of the day, possibly with a sixty-first second. -/
structure WellFormed (t : Timestamp) : Prop where
  minute : t.minute < 1440
  second : t.second ≤ 60
  nanosecond : t.nanosecond < tenPow 9

/-- A fraction of a second is read with the digits that it was written with. -/
theorem fraction_padded {width n : Nat} (hpos : 0 < width) (hwidth : width ≤ 9)
    (hn : n < 10 ^ width) :
    fraction ('.' :: ((Date.padded width n).toList ++ ['Z'])) =
      .ok (n * tenPow (9 - width), ['Z']) := by
  have hlength : (Date.padded width n).toList.length = width := length_padded hpos hn
  have hlimit : n < twoPow 63 := by
    have hpow : 10 ^ width ≤ 10 ^ 9 := Nat.pow_le_pow_right (by decide) hwidth
    have h63 : 10 ^ 9 < twoPow 63 := by decide
    omega
  have hend : ∀ c ∈ ['Z'].head?, c.isDigit = false := by
    rintro c hc
    cases hc
    rfl
  rw [fraction, CalendarReader.number_padded (by omega) (Or.inr hend) hlimit]
  show Except.ok (n * tenPow (9 - (((Date.padded width n).toList ++ ['Z']).length - 1)), _) = _
  rw [List.length_append, hlength]
  rfl

/-- A written fraction of a second is read in nanoseconds. -/
theorem fraction_fractionText {n : Nat} (h : n < tenPow 9) :
    fraction ((fractionText n).toList ++ ['Z']) = .ok (n, ['Z']) := by
  have hnine : tenPow 9 = 1000000000 := rfl
  have hplaces : tenPow (9 - 3) = 1000000 ∧ tenPow (9 - 6) = 1000 ∧ tenPow (9 - 9) = 1 :=
    ⟨rfl, rfl, rfl⟩
  have hpoint : ∀ s : String, ("." ++ s).toList ++ ['Z'] = '.' :: (s.toList ++ ['Z']) := by
    intro s
    rw [String.toList_append]
    rfl
  unfold fractionText
  by_cases hzero : n = 0
  · rw [if_pos hzero, hzero]
    rfl
  · rw [if_neg hzero]
    by_cases hmilli : n % 1000000 = 0
    · rw [if_pos hmilli, hpoint, fraction_padded (by decide) (by decide) (by omega), hplaces.1]
      congr 2
      omega
    · rw [if_neg hmilli]
      by_cases hmicro : n % 1000 = 0
      · rw [if_pos hmicro, hpoint, fraction_padded (by decide) (by decide) (by omega), hplaces.2.1]
        congr 2
        omega
      · rw [if_neg hmicro, hpoint, fraction_padded (by decide) (by decide) (by omega),
          hplaces.2.2, Nat.mul_one]

/-- A point in time is written as its date and its time of day, with the letter `Z` at the end. -/
theorem toList_toText (t : Timestamp) :
    t.toText.toList = t.date.toText.toList ++ 'T' :: ((Date.padded 2 (t.minute / 60)).toList ++
      ':' :: ((Date.padded 2 (t.minute % 60)).toList ++ ':' :: ((Date.padded 2 t.second).toList ++
        ((fractionText t.nanosecond).toList ++ ['Z'])))) := by
  simp [toText, toString]

/-- Without an offset the local time is the point in time. -/
theorem ofLocal_zero {minute : Nat} (h : minute < 1440) (date : Date) (second nanosecond : Nat) :
    ofLocal date minute 0 second nanosecond = .ok ⟨date, minute, second, nanosecond⟩ := by
  have hpositive : ¬((minute : ℤ) - 0 < 0) := by omega
  have hday : ¬(1440 ≤ (minute : ℤ) - 0) := by omega
  have hminute : (((minute : ℤ) - 0) % 1440).toNat = minute := by omega
  unfold ofLocal
  dsimp only
  rw [if_neg hpositive, if_neg hday, hminute]

/-- **A point in time is read as it was written.** -/
theorem ofText_toText {t : Timestamp} (h : t.WellFormed) : ofText t.toText = .ok t := by
  obtain ⟨hminute, hsecond, hnanosecond⟩ := h
  have hhours : t.minute / 60 ≤ 23 := by omega
  have hminutes : t.minute % 60 ≤ 59 := by omega
  have hday : t.minute / 60 * 60 + t.minute % 60 = t.minute := by omega
  have hcolon : isBlank ':' = false := rfl
  have hzone : CalendarReader.skipBlanks ['Z'] = ['Z'] := rfl
  have hmark : ('T' == 't' || 'T' == 'T' || 'T' == ' ') = true := rfl
  rw [ofText, toList_toText, Date.dateParts_toText]
  simp only [bind, Except.bind, hmark, if_true, pure, Except.pure, CalendarReader.mark_cons hcolon,
    CalendarReader.bounded_padded (Nat.zero_le _) hhours (by omega),
    CalendarReader.bounded_padded (Nat.zero_le _) hminutes (by omega),
    CalendarReader.bounded_padded (Nat.zero_le _) hsecond (by omega),
    fraction_fractionText hnanosecond, hzone, hday, t.date.ofParts?_self]
  exact ofLocal_zero hminute t.date t.second t.nanosecond

/-! ## What has been read -/

end Timestamp

namespace CalendarReader

/-- Further digits make a number below the power of ten that their count says. -/
theorem digits_eq_ok {value width n : Nat} {cs rest : List Char}
    (h : digits value width cs = .ok (n, rest)) :
    ∃ taken, cs.length = rest.length + taken ∧ taken ≤ width ∧ n < (value + 1) * tenPow taken := by
  induction width generalizing value cs with
  | zero =>
    cases h
    exact ⟨0, rfl, Nat.le_refl 0, by simp [tenPow]⟩
  | succ width ih =>
    cases cs with
    | nil =>
      cases h
      exact ⟨0, rfl, Nat.zero_le _, by simp [tenPow]⟩
    | cons c cs =>
      rw [digits] at h
      split at h
      · next hc =>
        dsimp only at h
        split at h
        · obtain ⟨taken, hlength, htaken, hn⟩ := ih h
          have hdigit := digitValue_lt hc
          refine ⟨taken + 1, by rw [List.length_cons]; omega, by omega, hn.trans_le ?_⟩
          calc (value * 10 + digitValue c + 1) * tenPow taken
              ≤ (value + 1) * 10 * tenPow taken := Nat.mul_le_mul_right _ (by omega)
            _ = (value + 1) * tenPow (taken + 1) := by rw [tenPow_succ]; ring
        · contradiction
      · cases h
        exact ⟨0, rfl, Nat.zero_le _, by simp [tenPow]⟩

/-- A number that has been read takes no more digits than the width, and is bounded by them. -/
theorem number_eq_ok {width n : Nat} {cs rest : List Char} (h : number width cs = .ok (n, rest)) :
    ∃ taken, cs.length = rest.length + taken ∧ taken ≤ width ∧ n < tenPow taken := by
  unfold number at h
  split at h
  · contradiction
  · split at h
    · obtain ⟨taken, hlength, htaken, hn⟩ := digits_eq_ok h
      exact ⟨taken, hlength, htaken, by rwa [Nat.zero_add, Nat.one_mul] at hn⟩
    · contradiction

/-- A number that has been read within bounds lies within them. -/
theorem bounded_eq_ok {width low high n : Nat} {cs rest : List Char}
    (h : bounded width low high cs = .ok (n, rest)) : low ≤ n ∧ n ≤ high := by
  obtain ⟨⟨value, after⟩, -, h⟩ := bind_eq_ok_iff.mp h
  dsimp only at h
  split at h
  · next hbounds =>
    cases h
    exact hbounds
  · contradiction

end CalendarReader

namespace Timestamp

/-- A fraction that has been read is less than a second. -/
theorem fraction_eq_ok {n : Nat} {cs rest : List Char} (h : fraction cs = .ok (n, rest)) :
    n < tenPow 9 := by
  unfold fraction at h
  split at h
  · next digits =>
    obtain ⟨⟨value, after⟩, hvalue, h⟩ := bind_eq_ok_iff.mp h
    obtain ⟨taken, hlength, htaken, hvalue⟩ := CalendarReader.number_eq_ok hvalue
    cases h
    have htaken' : digits.length - after.length = taken := by omega
    calc value * tenPow (9 - (digits.length - after.length))
        < tenPow taken * tenPow (9 - taken) := by
          rw [htaken']
          exact Nat.mul_lt_mul_of_pos_right hvalue (tenPow_pos _)
      _ = tenPow 9 := by rw [← tenPow_add, Nat.add_sub_cancel' htaken]
  · cases h
    exact tenPow_pos 9

/-- A local time that is brought to the common one gives a well-formed point in time. -/
theorem wellFormed_of_ofLocal {date : Date} {minute : Nat} {east : ℤ} {second nanosecond : Nat}
    {t : Timestamp} (h : ofLocal date minute east second nanosecond = .ok t) (hsecond : second ≤ 60)
    (hnanosecond : nanosecond < tenPow 9) : t.WellFormed := by
  unfold ofLocal at h
  dsimp only at h
  split at h
  · cases h
    exact ⟨by dsimp only; omega, hsecond, hnanosecond⟩
  · contradiction

/-- A point in time that has been read can be written. -/
theorem wellFormed_of_ofText {text : String} {t : Timestamp} (h : ofText text = .ok t) :
    t.WellFormed := by
  obtain ⟨⟨⟨year, month, day⟩, rest⟩, -, h⟩ := bind_eq_ok_iff.mp h
  dsimp only at h
  split at h
  · contradiction
  · split at h
    · obtain ⟨_, -, h⟩ := bind_eq_ok_iff.mp h
      obtain ⟨⟨hour, _⟩, -, h⟩ := bind_eq_ok_iff.mp h
      obtain ⟨_, -, h⟩ := bind_eq_ok_iff.mp h
      obtain ⟨⟨minute, _⟩, -, h⟩ := bind_eq_ok_iff.mp h
      obtain ⟨_, -, h⟩ := bind_eq_ok_iff.mp h
      obtain ⟨⟨second, _⟩, hsecond, h⟩ := bind_eq_ok_iff.mp h
      obtain ⟨⟨nanosecond, _⟩, hnanosecond, h⟩ := bind_eq_ok_iff.mp h
      obtain ⟨⟨east, _⟩, -, h⟩ := bind_eq_ok_iff.mp h
      dsimp only at h
      split at h
      · contradiction
      · split at h
        · contradiction
        · split at h
          · exact wellFormed_of_ofLocal h (CalendarReader.bounded_eq_ok hsecond).2
              (fraction_eq_ok hnanosecond)
          · contradiction
    · contradiction

end Timestamp

end Tariff
