/-
# The values of JSON numbers

A literal stands for its digits times a power of ten. With fifteen digits at most and a power that
doubles can write, the double that is read in its place is rounded only once, and so the literal's
value can be found again.

* `Collected.fraction_whole` : digits are collected without loss as long as 64 bits hold them;
* `Collected.exists_toFloat?` : the digits are rounded once;
* `NumberLiteral.value?_of_isInteger` : integers are read as they are;
* `NumberLiteral.IsShort.exists_value?` : the shortest digits of the double of a short literal;
* `JsonNumber.exists_ofText_floatText` : the decimal in the text of a double.
-/
import Tariff.Proofs.Binary.Arithmetic
import Tariff.Proofs.Text.Digits

namespace Tariff

open Decimal (Representable)

/-! ## Collecting digits -/

namespace Collected

/-- The first digit is taken in, and the others are still to come. -/
theorem next_digit (significand : Nat) (c : Char) (digits : List Char) :
    significand * tenPow (digits.length + 1) +
        (digitValue c * tenPow digits.length + digitsValue digits) =
      (significand * 10 + digitValue c) * tenPow digits.length + digitsValue digits := by
  rw [tenPow_succ]
  ring

/-- What is taken in fits if it fits with all that is still to come. -/
theorem fits_before {longer limit rest count : Nat} (h : longer * tenPow count + rest < limit) :
    longer < limit := by
  have := Nat.le_mul_of_pos_right longer (tenPow_pos count)
  omega

theorem whole_eq {significand : Nat} {digits : List Char}
    (h : significand * tenPow digits.length + digitsValue digits < twoPow 64) :
    whole significand digits =
      ⟨significand * tenPow digits.length + digitsValue digits, 0⟩ := by
  -- The induction is on the digits, behind any number.
  induction digits generalizing significand with
  | nil => exact congrArg (Collected.mk · 0) (Nat.mul_one significand).symm
  | cons c digits ih =>
    rw [List.length_cons, digitsValue_cons, next_digit] at h ⊢
    rw [whole, if_pos (fits_before h), ih h]

theorem fraction_eq {significand : Nat} {exponent : ℤ} {digits : List Char}
    (h : significand * tenPow digits.length + digitsValue digits < twoPow 64) :
    fraction ⟨significand, exponent⟩ digits =
      ⟨significand * tenPow digits.length + digitsValue digits, exponent - digits.length⟩ := by
  induction digits generalizing significand exponent with
  | nil =>
    rw [fraction, List.length_nil, Nat.cast_zero, Int.sub_zero]
    exact congrArg (Collected.mk · exponent) (Nat.mul_one significand).symm
  | cons c digits ih =>
    have hplace : exponent - (digits.length + 1 : Nat) = exponent - 1 - digits.length := by omega
    rw [List.length_cons, digitsValue_cons, next_digit] at h
    rw [List.length_cons, digitsValue_cons, next_digit, hplace, fraction, if_pos (fits_before h),
      ih h]

/-- All digits of a literal are collected if 64 bits hold them. -/
theorem fraction_whole {whole' fraction' : List Char}
    (h : digitsValue (whole' ++ fraction') < twoPow 64) :
    (whole 0 whole').fraction fraction' =
      ⟨digitsValue (whole' ++ fraction'), -(fraction'.length : ℤ)⟩ := by
  rw [digitsValue_append] at h ⊢
  have hwhole : 0 * tenPow whole'.length + digitsValue whole' < twoPow 64 := by
    rw [Nat.zero_mul, Nat.zero_add]
    exact fits_before h
  rw [whole_eq hwhole, Nat.zero_mul, Nat.zero_add, fraction_eq h, Int.zero_sub]

/-- Digits of at most 53 bits with a power of ten that is exact are rounded once. -/
theorem exists_toFloat? {significand : Nat} {exponent : ℤ} (hsignificand : significand < 2 ^ 53)
    (hlow : -22 ≤ exponent) (hhigh : exponent ≤ 22) :
    ∃ x, toFloat? ⟨significand, exponent⟩ = some x ∧ (significand = 0 → IsZero x) ∧
      (0 < significand → RoundsTo (significand * 10 ^ exponent) x) := by
  unfold toFloat?
  dsimp only
  by_cases hexponent : 0 ≤ exponent
  · obtain ⟨n, rfl⟩ := Int.eq_ofNat_of_zero_le hexponent
    have hn : n ≤ 22 := by omega
    have hpower := standsFor_powerOfTen hn
    rw [if_pos hexponent, Int.toNat_natCast, multiply?, if_pos (hn.trans (by decide))]
    dsimp only
    rcases Nat.eq_zero_or_pos significand with rfl | hpos
    · have hzero := isZero_ofScientific.mul hpower
      refine ⟨_, if_neg ?_, fun _ => hzero, fun h => absurd h (Nat.lt_irrefl 0)⟩
      rw [hzero.isInf]
      decide
    · have hrounds := (standsFor_ofScientific hpos hsignificand).mul hpower
      rw [tenPow_cast] at hrounds
      refine ⟨_, if_neg ?_, fun h => absurd h hpos.ne', fun _ => hrounds⟩
      rw [hrounds.isInf]
      decide
  · obtain ⟨n, hn⟩ : ∃ n : Nat, exponent = -n := ⟨(-exponent).toNat, by omega⟩
    have hn' : n ≤ 22 := by omega
    have hpower := standsFor_powerOfTen hn'
    have hcount : (-exponent).toNat = n := by omega
    rw [if_neg hexponent, hcount, divide, dif_pos (hn'.trans (by decide))]
    refine ⟨_, rfl, ?_, fun hpos => ?_⟩
    · rintro rfl
      exact isZero_ofScientific.div hpower
    · have hrounds := (standsFor_ofScientific hpos hsignificand).div hpower
      rwa [tenPow_cast, div_eq_mul_inv, ← zpow_neg, ← hn] at hrounds

end Collected

/-! ## Literals -/

namespace NumberLiteral

variable {l : NumberLiteral}

/-- The digits of a literal, without the point. -/
def digits (l : NumberLiteral) : Nat := digitsValue (l.whole ++ l.fraction)

/-- The exponent that a literal has behind its digits. -/
def writtenExponent (l : NumberLiteral) : ℤ :=
  match l.exponent with
  | none => 0
  | some (minus, digits) => if minus then -(digitsValue digits : ℤ) else digitsValue digits

/-- The power of ten that the digits of a literal are multiplied with. -/
def power (l : NumberLiteral) : ℤ := l.writtenExponent - l.fraction.length

/-- The number that a literal stands for. -/
def toRat (l : NumberLiteral) : ℚ :=
  if l.negative then -(l.digits * (10 : ℚ) ^ l.power) else l.digits * (10 : ℚ) ^ l.power

/-- A literal without point and exponent. -/
def IsWhole (l : NumberLiteral) : Prop := l.fraction = [] ∧ l.exponent = none

instance (l : NumberLiteral) : Decidable l.IsWhole := inferInstanceAs (Decidable (_ ∧ _))

/-- Literals of at most fifteen digits, with a power of ten that doubles can write. -/
structure IsShort (l : NumberLiteral) : Prop where
  digits_lt : l.digits < tenPow 15
  le_power : -22 ≤ l.power
  power_le : l.power ≤ 22
  exponent_lt : l.writtenExponent.natAbs < twoPow 31

/-- Short literals are rounded once. -/
theorem IsShort.magnitude?_eq (h : l.IsShort) :
    l.magnitude? = Collected.toFloat? ⟨l.digits, l.power⟩ := by
  have hdigits : digitsValue (l.whole ++ l.fraction) < twoPow 64 :=
    Nat.lt_trans h.digits_lt (by decide +kernel)
  have hexponent := h.exponent_lt
  unfold magnitude? power
  unfold writtenExponent at hexponent ⊢
  rw [Collected.fraction_whole hdigits]
  cases hwritten : l.exponent with
  | none =>
    dsimp only
    rw [Int.zero_sub]
    rfl
  | some written =>
    obtain ⟨minus, digits⟩ := written
    rw [hwritten] at hexponent
    have hvalue : exponentValue? digits = some (digitsValue digits) := by
      refine if_pos ?_
      cases minus
      · exact hexponent
      · exact (Int.natAbs_neg _).symm.trans_lt hexponent
    dsimp only
    rw [hvalue]
    dsimp only
    congr 2
    cases minus
    · rw [if_neg Bool.false_ne_true, if_neg Bool.false_ne_true]
      omega
    · rw [if_pos rfl, if_pos rfl]
      omega

/-! ## Integers -/

/-- The number that the digits before the point stand for, with the sign of a literal. -/
def wholeValue (l : NumberLiteral) : ℤ :=
  if l.negative then -(digitsValue l.whole : ℤ) else digitsValue l.whole

/-- Literals of integers that 64 bits hold, with a sign if there is a minus sign. A negative zero is
none of them. -/
def IsInteger (l : NumberLiteral) : Prop :=
  l.IsWhole ∧ if l.negative then 0 < digitsValue l.whole ∧ digitsValue l.whole ≤ twoPow 63
    else digitsValue l.whole < twoPow 64

theorem isWhole_iff : (l.fraction.isEmpty && l.exponent.isNone) = true ↔ l.IsWhole := by
  rw [Bool.and_eq_true, List.isEmpty_iff, Option.isNone_iff_eq_none]
  rfl

theorem toRat_of_isWhole (h : l.IsWhole) : l.toRat = l.wholeValue := by
  have hdigits : l.digits = digitsValue l.whole := by
    rw [digits, h.1, List.append_nil]
  have hpower : l.power = 0 := by
    rw [power, writtenExponent, h.1, h.2]
    rfl
  rw [toRat, wholeValue, hdigits, hpower, zpow_zero, mul_one]
  split
  · rw [Int.cast_neg, Int.cast_natCast]
  · rw [Int.cast_natCast]

/-- Integers are read as they are. -/
theorem value?_of_isInteger (h : l.IsInteger) : l.value? = some (.integer l.wholeValue) := by
  obtain ⟨hwhole, hrange⟩ := h
  have hwhole' := isWhole_iff.mpr hwhole
  unfold value? wholeValue
  cases hsign : l.negative
  · rw [hsign, if_neg Bool.false_ne_true] at hrange
    exact if_pos (by simp [hwhole', hrange])
  · rw [hsign, if_pos rfl] at hrange
    refine (if_neg (by simp)).trans (if_pos ?_)
    simp [hwhole', hrange.1.ne', hrange.2]

/-- All other literals are read as doubles. -/
theorem value?_of_not_isInteger (h : ¬l.IsInteger) :
    l.value? = l.magnitude?.map fun x => .float (if l.negative then -x else x) := by
  unfold value?
  refine (if_neg fun hnatural => h ?_).trans (if_neg fun hnegative => h ?_)
  · rw [Bool.and_eq_true, Bool.and_eq_true, isWhole_iff, decide_eq_true_eq] at hnatural
    refine ⟨hnatural.1.1, ?_⟩
    rw [if_neg (by simpa using hnatural.1.2)]
    exact hnatural.2
  · rw [Bool.and_eq_true, Bool.and_eq_true, Bool.and_eq_true, isWhole_iff, decide_eq_true_eq,
      bne_iff_ne] at hnegative
    refine ⟨hnegative.1.1.1, ?_⟩
    rw [if_pos hnegative.1.1.2]
    exact ⟨Nat.pos_of_ne_zero hnegative.1.2, hnegative.2⟩

/-! ## Doubles in place of literals -/

/-- The shortest digits of the double of a short literal stand for the number of the literal. -/
theorem IsShort.exists_value? (h : l.IsShort) (hinteger : ¬l.IsInteger) :
    ∃ x p, l.value? = some (.float x) ∧ BinaryParts.ofFloat? x = some p ∧
      p.shortestValue = l.toRat := by
  have hbits : l.digits < 2 ^ 53 := Nat.lt_trans h.digits_lt (by decide +kernel)
  obtain ⟨x, hx, hzero, hrounds⟩ := Collected.exists_toFloat? hbits h.le_power h.power_le
  have hparts : ∃ p, BinaryParts.ofFloat? (if l.negative then -x else x) = some p ∧
      p.negative = l.negative ∧ (shortestDigits p).toRat = l.digits * (10 : ℚ) ^ l.power := by
    rcases Nat.eq_zero_or_pos l.digits with hdigits | hdigits
    · refine ⟨_, (hzero hdigits).ofFloat? l.negative, rfl, ?_⟩
      rw [hdigits, Nat.cast_zero, zero_mul]
      show (0 : Nat) * (10 : ℚ) ^ (0 : ℤ) = 0
      rw [Nat.cast_zero, zero_mul]
    · obtain ⟨s, f, hparts, hf, hf', hholds⟩ := hrounds hdigits
      exact ⟨_, hparts.ofFloat? hf hf' l.negative, rfl,
        BinaryParts.toRat_shortestDigits hparts.lower hf h.digits_lt (hholds l.negative)⟩
  obtain ⟨p, hp, hsign, hdigits⟩ := hparts
  refine ⟨_, p, ?_, hp, ?_⟩
  · rw [value?_of_not_isInteger hinteger, h.magnitude?_eq, hx]
    rfl
  · rw [BinaryParts.shortestValue, hsign, hdigits]
    rfl

end NumberLiteral

/-- The text of a double is read as the number of its shortest digits, if a decimal stands for
it. -/
theorem JsonNumber.exists_ofText_floatText {x : Float} {p : BinaryParts}
    (hp : BinaryParts.ofFloat? x = some p) (h : Representable p.shortestValue) :
    ∃ a, Decimal.ofText (JsonNumber.floatText x) = .ok a ∧ a.toRat = p.shortestValue := by
  have hmagnitude : Representable (shortestDigits p).toRat := by
    unfold BinaryParts.shortestValue at h
    split at h
    · simpa using h.neg
    · exact h
  obtain ⟨hshort, hnone⟩ := BinaryParts.shortestDigits_bounds (BinaryParts.le_exponent hp)
  rw [JsonNumber.floatText, hp]
  exact exists_ofText_numberText hshort hnone hmagnitude

end Tariff
