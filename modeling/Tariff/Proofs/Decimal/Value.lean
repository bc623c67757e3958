/-
# The numbers that decimals stand for

A decimal stands for a rational number. A number is representable if some decimal stands for it,
and a result that is representable is never rounded: the digits that have to go are zeros.

* `isPositive_iff`, `sameValue_iff` : signs and comparison by the numbers;
* `fit?_of_representable` : a number that is made to fit stays as it is if it can;
* `add?_of_representable` : a representable sum is exact;
* `checkedSum_of_exactlySummable` : so is the sum of a list, if all sums on the way are
  representable;
* `FitTogether.exactlySummable` : which they are in any order if the magnitudes fit together.
-/
import Mathlib.Algebra.Order.Field.Basic
import Mathlib.Algebra.Order.Field.Rat
import Mathlib.Data.Int.Cast.Lemmas
import Mathlib.Data.List.Induction
import Mathlib.Tactic.FieldSimp
import Tariff.Decimal.Arithmetic
import Tariff.Proofs.Outcome

namespace Tariff

theorem tenPow_add (m n : Nat) : tenPow (m + n) = tenPow m * tenPow n := Nat.pow_add 10 m n

theorem tenPow_dvd_tenPow {m n : Nat} (h : m ≤ n) : tenPow m ∣ tenPow n := Nat.pow_dvd_pow 10 h

theorem tenPow_cast_ne_zero (n : Nat) : (tenPow n : ℚ) ≠ 0 :=
  Nat.cast_ne_zero.mpr (tenPow_pos n).ne'

theorem tenPow_cast_pos (n : Nat) : (0 : ℚ) < tenPow n := Nat.cast_pos.mpr (tenPow_pos n)

/-- A quotient without rest is not rounded. -/
theorem halfEven_of_dvd {n d : Nat} (hd : 0 < d) (h : d ∣ n) : halfEven n d = n / d := by
  rw [halfEven, Nat.mod_eq_zero_of_dvd h]
  apply if_neg
  omega

namespace Decimal

/-! ## Values -/

/-- The number that a decimal stands for. -/
def toRat (a : Decimal) : ℚ := a.signed / tenPow a.scale

/-- A number that some decimal stands for. -/
def Representable (q : ℚ) : Prop := ∃ a : Decimal, a.toRat = q

/-- More digits behind the point do not change the number. -/
theorem toRat_eq_signedAt (a : Decimal) {scale : Nat} (h : a.scale ≤ scale) :
    a.toRat = a.signedAt scale / tenPow scale := by
  have hpow : (tenPow scale : ℚ) = tenPow a.scale * tenPow (scale - a.scale) := by
    rw [← Nat.cast_mul, ← tenPow_add, Nat.add_sub_cancel' h]
  have hunit := tenPow_cast_ne_zero a.scale
  have hrest := tenPow_cast_ne_zero (scale - a.scale)
  rw [toRat, signedAt, hpow, Int.cast_mul, Int.cast_natCast]
  field_simp

theorem signed_eq_zero_iff (a : Decimal) : a.signed = 0 ↔ a.coefficient = 0 := by
  unfold signed
  split <;> omega

theorem toRat_of_isZero {a : Decimal} (h : a.isZero = true) : a.toRat = 0 := by
  rw [toRat, (signed_eq_zero_iff a).mpr (by simpa [isZero] using h), Int.cast_zero, zero_div]

@[simp] theorem toRat_zero : zero.toRat = 0 := toRat_of_isZero rfl

theorem toRat_neg (a : Decimal) : a.neg.toRat = -a.toRat := by
  have hsigned : a.neg.signed = -a.signed := by
    unfold signed neg
    cases a.negative <;> simp
  rw [toRat, toRat, hsigned, Int.cast_neg, neg_div]
  rfl

/-- A decimal is positive when its number is. -/
theorem isPositive_iff (a : Decimal) : a.isPositive = true ↔ 0 < a.toRat := by
  have hsigned : a.isPositive = true ↔ 0 < a.signed := by
    unfold isPositive signed
    cases a.negative <;> simp
  rw [hsigned, toRat, div_pos_iff_of_pos_right (tenPow_cast_pos a.scale), Int.cast_pos]

/-- Decimals are compared by their numbers. -/
theorem sameValue_iff (a b : Decimal) : a.sameValue b = true ↔ a.toRat = b.toRat := by
  have hunit := tenPow_cast_ne_zero (Nat.max a.scale b.scale)
  rw [toRat_eq_signedAt a (Nat.le_max_left a.scale b.scale),
    toRat_eq_signedAt b (Nat.le_max_right a.scale b.scale), div_left_inj' hunit, Int.cast_inj,
    sameValue, beq_iff_eq, compare, Int.compare_eq_eq]

/-! ## Numbers that are made to fit -/

/-- The number of a sign, a coefficient and a scale. -/
theorem toRat_of_ofParts? {negative : Bool} {coefficient scale : Nat} {a : Decimal}
    (h : ofParts? negative coefficient scale = some a) :
    a.toRat = ((if negative then -coefficient else coefficient : Int) : ℚ) / tenPow scale := by
  unfold ofParts? at h
  split at h
  · cases h
    rfl
  · cases h

/-- A representable number has zeros in place of the digits that are too many. -/
theorem exists_zeros_of_representable {coefficient scale : Nat}
    (h : Representable (coefficient / tenPow scale)) :
    ∃ zeros ≤ scale, tenPow zeros ∣ coefficient ∧ scale - zeros ≤ maxScale ∧
      coefficient / tenPow zeros < limit := by
  obtain ⟨a, ha⟩ := h
  -- The coefficient of the decimal is the given one, moved by the difference of the scales.
  have hcross : coefficient * tenPow a.scale = a.coefficient * tenPow scale := by
    have hsigned : (a.signed : ℚ) * tenPow scale = coefficient * tenPow a.scale := by
      rwa [toRat, div_eq_div_iff (tenPow_cast_ne_zero _) (tenPow_cast_ne_zero _)] at ha
    have hint : a.signed * tenPow scale = coefficient * tenPow a.scale := by exact_mod_cast hsigned
    have habs := congrArg Int.natAbs hint
    rw [Int.natAbs_mul, Int.natAbs_mul, Int.natAbs_natCast, Int.natAbs_natCast,
      Int.natAbs_natCast] at habs
    have hcoefficient : a.signed.natAbs = a.coefficient := by
      unfold signed
      split <;> simp
    rw [← habs, hcoefficient]
  by_cases hscale : scale ≤ a.scale
  · refine ⟨0, Nat.zero_le _, Nat.one_dvd _, Nat.le_trans hscale a.scale_le, ?_⟩
    obtain ⟨more, hmore⟩ := Nat.exists_eq_add_of_le hscale
    rw [hmore, Nat.add_comm, tenPow_add, ← Nat.mul_assoc] at hcross
    have heq := Nat.eq_of_mul_eq_mul_right (tenPow_pos scale) hcross
    have hle : coefficient ≤ a.coefficient := by
      rw [← heq]
      exact Nat.le_mul_of_pos_right coefficient (tenPow_pos more)
    show coefficient / 1 < limit
    rw [Nat.div_one]
    exact Nat.lt_of_le_of_lt hle a.coefficient_lt
  · obtain ⟨zeros, hzeros⟩ := Nat.exists_eq_add_of_le (Nat.le_of_not_le hscale)
    rw [hzeros, Nat.add_comm, tenPow_add, ← Nat.mul_assoc] at hcross
    have heq := Nat.eq_of_mul_eq_mul_right (tenPow_pos a.scale) hcross
    refine ⟨zeros, by omega, ⟨a.coefficient, by rw [heq, Nat.mul_comm]⟩, ?_, ?_⟩
    · have hle := a.scale_le
      show scale - zeros ≤ 28
      omega
    · rw [heq, Nat.mul_div_cancel _ (tenPow_pos zeros)]
      exact a.coefficient_lt

/-- If zeros can go, then no more digits than these go. -/
theorem exists_surplusDigits {coefficient scale zeros : Nat} (hle : zeros ≤ scale)
    (hscale : scale - zeros ≤ maxScale) (hlimit : coefficient / tenPow zeros < limit) :
    ∃ dropped ≤ zeros, surplusDigits coefficient scale = some dropped ∧
      scale - dropped ≤ maxScale ∧ coefficient / tenPow dropped < limit := by
  cases hfind : surplusDigits coefficient scale with
  | none =>
    have hnone := List.find?_eq_none.mp hfind zeros (List.mem_range.mpr (by omega))
    simp [hscale, hlimit] at hnone
  | some dropped =>
    have hspec := List.find?_some hfind
    rw [Bool.and_eq_true, decide_eq_true_eq, decide_eq_true_eq] at hspec
    refine ⟨dropped, ?_, rfl, hspec⟩
    rw [surplusDigits, List.find?_range_eq_some] at hfind
    by_contra hlt
    have hnot := hfind.2.2 zeros (by omega)
    simp [hscale, hlimit] at hnot

/-- **What fits is not rounded.** A representable number stays as it is when it is made to fit. -/
theorem fit?_of_representable (negative : Bool) {coefficient scale : Nat}
    (h : Representable (coefficient / tenPow scale)) :
    ∃ a, fit? negative coefficient scale = some a ∧
      a.toRat = ((if negative then -coefficient else coefficient : Int) : ℚ) / tenPow scale := by
  obtain ⟨zeros, hle, hdvd, hscale, hlimit⟩ := exists_zeros_of_representable h
  obtain ⟨dropped, hdropped, hsurplus, hscale, hlimit⟩ := exists_surplusDigits hle hscale hlimit
  obtain ⟨kept, rfl⟩ := Nat.dvd_trans (tenPow_dvd_tenPow hdropped) hdvd
  rw [Nat.mul_div_cancel_left kept (tenPow_pos dropped)] at hlimit
  have hrounded : halfEven (tenPow dropped * kept) (tenPow dropped) = kept := by
    rw [halfEven_of_dvd (tenPow_pos dropped) (Nat.dvd_mul_right _ _),
      Nat.mul_div_cancel_left kept (tenPow_pos dropped)]
  have hparts : ofParts? negative kept (scale - dropped) =
      some ⟨negative, kept, scale - dropped, hlimit, hscale⟩ := dif_pos ⟨hlimit, hscale⟩
  refine ⟨⟨negative, kept, scale - dropped, hlimit, hscale⟩, ?_, ?_⟩
  · rw [fit?, hsurplus]
    show (if halfEven _ _ < limit then _ else _) = _
    rw [hrounded, if_pos hlimit]
    exact hparts
  · have hpow : (tenPow scale : ℚ) = tenPow dropped * tenPow (scale - dropped) := by
      rw [← Nat.cast_mul, ← tenPow_add, Nat.add_sub_cancel' (by omega)]
    have hunit := tenPow_cast_ne_zero dropped
    rw [toRat_of_ofParts? hparts, hpow]
    have hfactor : (if negative then -((tenPow dropped * kept : Nat) : Int)
        else ((tenPow dropped * kept : Nat) : Int)) =
        tenPow dropped * if negative then -(kept : Int) else kept := by
      cases negative <;> simp
    rw [hfactor, Int.cast_mul, Int.cast_natCast, mul_div_mul_left _ _ hunit]

/-! ## Sums -/

theorem toRat_positiveZero (a : Decimal) : a.positiveZero.toRat = a.toRat := by
  have hsigned : a.positiveZero.signed = a.signed := by
    unfold signed positiveZero
    by_cases hzero : a.coefficient = 0
    · simp [hzero]
    · simp [hzero]
  rw [toRat, toRat, hsigned]
  rfl

/-- Two decimals are added by their coefficients where both have enough digits. -/
theorem toRat_add_toRat {a b : Decimal} {scale : Nat} (ha : a.scale ≤ scale)
    (hb : b.scale ≤ scale) :
    a.toRat + b.toRat = ((a.signedAt scale + b.signedAt scale : Int) : ℚ) / tenPow scale := by
  rw [toRat_eq_signedAt a ha, toRat_eq_signedAt b hb, Int.cast_add, add_div]

/-- A sign and a magnitude make up a number. -/
theorem ite_natAbs (n : Int) : (if decide (n < 0) then -(n.natAbs : Int) else n.natAbs) = n := by
  split
  · next hneg => simp at hneg; omega
  · next hneg => simp at hneg; omega

/-- **Representable sums are exact.** -/
theorem add?_of_representable {a b : Decimal} (h : Representable (a.toRat + b.toRat)) :
    ∃ sum, a.add? b = some sum ∧ sum.toRat = a.toRat + b.toRat := by
  unfold add?
  by_cases ha : a.isZero = true
  · rw [if_pos ha, toRat_of_isZero ha, zero_add]
    exact ⟨b, rfl, rfl⟩
  · rw [if_neg ha]
    by_cases hb : b.isZero = true
    · rw [if_pos hb, toRat_of_isZero hb, add_zero]
      exact ⟨a, rfl, rfl⟩
    · rw [if_neg hb, addAligned?]
      -- Both operands are written with as many digits as the longer one has.
      rw [toRat_add_toRat (Nat.le_max_left a.scale b.scale) (Nat.le_max_right a.scale b.scale)]
        at h ⊢
      generalize a.signedAt _ + b.signedAt _ = sum at h ⊢
      have habs : Representable ((sum.natAbs : ℚ) / tenPow (Nat.max a.scale b.scale)) := by
        by_cases hneg : sum < 0
        · obtain ⟨c, hc⟩ := h
          refine ⟨c.neg, ?_⟩
          rw [toRat_neg, hc, ← neg_div, Nat.cast_natAbs, abs_of_neg hneg, Int.cast_neg]
        · rwa [Nat.cast_natAbs, abs_of_nonneg (by omega)]
      obtain ⟨c, hfit, hc⟩ := fit?_of_representable (decide (sum < 0)) habs
      refine ⟨c.positiveZero, ?_, ?_⟩
      · show (fit? (decide (sum < 0)) sum.natAbs _).map positiveZero = _
        rw [hfit]
        rfl
      · rw [toRat_positiveZero, hc, ite_natAbs]

/-! ## Sums of lists -/

/-- The sum of decimals from the left, starting from zero. -/
def checkedSum (amounts : List Decimal) : Option Decimal := amounts.foldlM add? zero

theorem checkedSum_append_singleton (amounts : List Decimal) (amount : Decimal) :
    checkedSum (amounts ++ [amount]) = (checkedSum amounts).bind fun sum => sum.add? amount :=
  foldlM_append_singleton add? zero amounts amount

/-- Adding up decimals overflows: those that come first have a sum, to which the next one cannot be
added. -/
def OverflowsAt (amounts : List Decimal) (sum amount : Decimal) : Prop :=
  ∃ before after, amounts = before ++ amount :: after ∧ checkedSum before = some sum ∧
    sum.add? amount = none

/-- All sums on the way from zero to the sum of a list are representable. -/
def ExactlySummable (amounts : List Decimal) : Prop :=
  ∀ before, before <+: amounts → Representable (before.map toRat).sum

/-- **Sums without rounding.** If all sums on the way are representable, then decimals are added
up without a failure, and to their exact sum. -/
theorem checkedSum_of_exactlySummable {amounts : List Decimal} (h : ExactlySummable amounts) :
    ∃ total, checkedSum amounts = some total ∧ total.toRat = (amounts.map toRat).sum := by
  induction amounts using List.reverseRecOn with
  | nil => exact ⟨zero, rfl, toRat_zero⟩
  | append_singleton amounts amount ih =>
    obtain ⟨sum, hsum, hvalue⟩ := ih fun before hbefore =>
      h before (hbefore.trans (List.prefix_append amounts [amount]))
    have hlast := h (amounts ++ [amount]) (List.prefix_refl _)
    rw [List.map_append, List.sum_append, List.map_singleton, List.sum_singleton, ← hvalue]
      at hlast ⊢
    obtain ⟨total, htotal, hexact⟩ := add?_of_representable hlast
    refine ⟨total, ?_, hexact⟩
    rw [checkedSum_append_singleton, hsum, Option.bind_some, htotal]

/-- The sum is then the exact sum. -/
theorem toRat_of_checkedSum {amounts : List Decimal} {total : Decimal}
    (hexact : ExactlySummable amounts) (h : checkedSum amounts = some total) :
    total.toRat = (amounts.map toRat).sum := by
  obtain ⟨sum, hsum, hvalue⟩ := checkedSum_of_exactlySummable hexact
  rw [h] at hsum
  cases hsum
  exact hvalue

/-! ## Sums in any order -/

/-- Decimals have at most so many digits behind the point, and their magnitudes, written with that
many, have a sum within the limit. -/
def FitTogether (digits : Nat) (amounts : List Decimal) : Prop :=
  (∀ a ∈ amounts, a.scale ≤ digits) ∧
    (amounts.map fun a => (a.signedAt digits).natAbs).sum < limit

instance (digits : Nat) (amounts : List Decimal) : Decidable (FitTogether digits amounts) :=
  inferInstanceAs (Decidable (_ ∧ _))

/-- The order does not matter for whether decimals fit together. -/
theorem FitTogether.perm {digits : Nat} {amounts others : List Decimal}
    (h : FitTogether digits amounts) (hperm : others.Perm amounts) : FitTogether digits others := by
  refine ⟨fun a ha => h.1 a (hperm.mem_iff.mp ha), ?_⟩
  rw [(hperm.map _).sum_eq]
  exact h.2

theorem representable_of_natAbs_lt {n : Int} {digits : Nat} (hdigits : digits ≤ maxScale)
    (h : n.natAbs < limit) : Representable (n / tenPow digits) := by
  refine ⟨⟨decide (n < 0), n.natAbs, digits, h, hdigits⟩, ?_⟩
  show ((if decide (n < 0) then -(n.natAbs : Int) else n.natAbs : Int) : ℚ) / tenPow digits = _
  rw [ite_natAbs]

theorem sum_map_toRat {digits : Nat} {amounts : List Decimal}
    (h : ∀ a ∈ amounts, a.scale ≤ digits) :
    (amounts.map toRat).sum =
      ((amounts.map fun a => a.signedAt digits).sum : Int) / tenPow digits := by
  induction amounts with
  | nil => simp
  | cons a amounts ih =>
    obtain ⟨ha, hrest⟩ := List.forall_mem_cons.mp h
    rw [List.map_cons, List.sum_cons, List.map_cons, List.sum_cons, ih hrest,
      toRat_eq_signedAt a ha, Int.cast_add, add_div]

theorem natAbs_sum_signedAt_le (digits : Nat) (amounts : List Decimal) :
    (amounts.map fun a : Decimal => a.signedAt digits).sum.natAbs ≤
      (amounts.map fun a => (a.signedAt digits).natAbs).sum := by
  induction amounts with
  | nil => exact Nat.le_refl 0
  | cons a amounts ih =>
    rw [List.map_cons, List.sum_cons, List.map_cons, List.sum_cons]
    exact Nat.le_trans (Int.natAbs_add_le _ _) (Nat.add_le_add_left ih _)

/-- **Decimals that fit together are added up without rounding.** The magnitude of a sum on the
way is at most the sum of all magnitudes. -/
theorem FitTogether.exactlySummable {digits : Nat} {amounts : List Decimal}
    (hdigits : digits ≤ maxScale) (h : FitTogether digits amounts) : ExactlySummable amounts := by
  rintro before ⟨after, rfl⟩
  obtain ⟨hscale, hlimit⟩ := h
  rw [sum_map_toRat fun a ha => hscale a (List.mem_append_left after ha)]
  rw [List.map_append, List.sum_append] at hlimit
  exact representable_of_natAbs_lt hdigits
    (Nat.lt_of_le_of_lt (natAbs_sum_signedAt_le digits before)
      (Nat.lt_of_le_of_lt (Nat.le_add_right _ _) hlimit))

end Decimal

end Tariff
