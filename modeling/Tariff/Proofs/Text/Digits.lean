/-
# The values of digits

A run of digits stands for a number below the power of ten that its length says, and a run behind
another one adds its own number to the shifted first one.
-/
import Mathlib.Tactic.Ring
import Tariff.Power
import Tariff.Text.Blank
import Tariff.Text.Digits

namespace Tariff

/-- Digits are not blank. -/
theorem isBlank_eq_false_of_isDigit {c : Char} (hc : c.isDigit = true) : isBlank c = false := by
  obtain ⟨hlow, hhigh⟩ := Char.isDigit_iff_toNat.mp hc
  exact isBlank_eq_false_of_printable (Nat.lt_of_lt_of_le (by decide) hlow)
    (Nat.lt_of_le_of_lt hhigh (by decide))

/-- A digit stands for less than ten. -/
theorem digitValue_lt {c : Char} (hc : c.isDigit = true) : digitValue c < 10 := by
  obtain ⟨hlow, hhigh⟩ := Char.isDigit_iff_toNat.mp hc
  exact Nat.sub_lt_left_of_lt_add hlow (Nat.lt_succ_of_le hhigh)

/-- Digits that are read on after a number. -/
theorem foldl_digits (start : Nat) (digits : List Char) :
    digits.foldl (fun n c => n * 10 + digitValue c) start =
      start * tenPow digits.length + digitsValue digits := by
  -- The induction is on the digits, after any number.
  induction digits generalizing start with
  | nil => exact (Nat.mul_one start).symm
  | cons c digits ih =>
    rw [digitsValue, List.foldl_cons, List.foldl_cons, ih, ih (0 * 10 + digitValue c),
      List.length_cons, tenPow_succ]
    ring

/-- Digits in front count as many tens more as there are digits behind them. -/
theorem digitsValue_append (before after : List Char) :
    digitsValue (before ++ after) =
      digitsValue before * tenPow after.length + digitsValue after := by
  rw [digitsValue, List.foldl_append, foldl_digits]
  rfl

/-- So does a single digit. -/
theorem digitsValue_cons (c : Char) (digits : List Char) :
    digitsValue (c :: digits) = digitValue c * tenPow digits.length + digitsValue digits := by
  have hsingle : digitsValue [c] = digitValue c := by simp [digitsValue]
  rw [← List.singleton_append, digitsValue_append, hsingle]

/-- A digit that is read after a number, with others to come. -/
theorem shift_digitsValue_cons (n : Nat) (c : Char) (digits : List Char) :
    n * tenPow (c :: digits).length + digitsValue (c :: digits) =
      (n * 10 + digitValue c) * tenPow digits.length + digitsValue digits := by
  rw [digitsValue_cons, List.length_cons, tenPow_succ]
  ring

/-- The value of digits is bounded by their number. -/
theorem digitsValue_lt {digits : List Char} (h : ∀ c ∈ digits, c.isDigit = true) :
    digitsValue digits < tenPow digits.length := by
  induction digits with
  | nil => exact Nat.one_pos
  | cons c digits ih =>
    obtain ⟨hc, hdigits⟩ := List.forall_mem_cons.mp h
    have hfirst := digitValue_lt hc
    have hothers := ih hdigits
    have hshift : digitValue c * tenPow digits.length ≤ 9 * tenPow digits.length :=
      Nat.mul_le_mul_right _ (by omega)
    rw [digitsValue_cons, List.length_cons, tenPow_succ]
    omega

/-- Zeros in front do not count. -/
theorem digitsValue_zeros_append (count : Nat) (digits : List Char) :
    digitsValue (List.replicate count '0' ++ digits) = digitsValue digits := by
  induction count with
  | zero => rfl
  | succ count ih =>
    rw [List.replicate_succ, List.cons_append, digitsValue_cons, ih]
    exact (congrArg (· + digitsValue digits) (Nat.zero_mul _)).trans (Nat.zero_add _)

/-- The digits of a number stand for it. -/
theorem digitsValue_toDigits (n : Nat) : digitsValue (Nat.toDigits 10 n) = n := by
  have hfold : digitsValue (Nat.toDigits 10 n) = Nat.ofDigitChars 10 (Nat.toDigits 10 n) 0 := by
    rw [digitsValue, Nat.ofDigitChars_eq_foldl]
    congr 1
    funext value c
    rw [Nat.mul_comm]
    rfl
  rw [hfold, Nat.ofDigitChars_ten_toDigits]

end Tariff
