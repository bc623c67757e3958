/-
# Exact operations

The operations of decimals against those of the numbers that they stand for. Signs, comparison and
the three roundings to whole numbers are always exact; differences and products are exact if they
are representable, however many digits the operands have where they are aligned.

* `toRat_abs`, `toRat_min`, `toRat_max` : operations that choose or sign an operand;
* `sub?_of_representable`, `mul?_of_representable` : representable differences and products;
* `toRat_round`, `toRat_floor`, `toRat_ceiling` : roundings to whole numbers.
-/
import Mathlib.Data.Rat.Floor
import Mathlib.Tactic.Linarith
import Mathlib.Tactic.Ring
import Tariff.Decimal.Rounding
import Tariff.Proofs.Decimal.Value

namespace Tariff

/-! ## Rounding half to even -/

/-- A whole number is nearest to `q`, and even if another one is as near. -/
def IsNearestEven (q : ℚ) (n : ℤ) : Prop := |q - n| ≤ 1 / 2 ∧ (|q - n| = 1 / 2 → Even n)

/-- The whole number nearest to `q`; of two equally near ones, the even one. -/
def nearestEven (q : ℚ) : ℤ :=
  if Int.fract q < 1 / 2 then ⌊q⌋
  else if 1 / 2 < Int.fract q then ⌊q⌋ + 1
  else if Even ⌊q⌋ then ⌊q⌋ else ⌊q⌋ + 1

/-- Rounding half to even gives a nearest integer, the even one of two. -/
theorem isNearestEven_nearestEven (q : ℚ) : IsNearestEven q (nearestEven q) := by
  have hnonneg := Int.fract_nonneg q
  have hlt := Int.fract_lt_one q
  have hbelow : q - (⌊q⌋ : ℤ) = Int.fract q := rfl
  have habove : q - ((⌊q⌋ + 1 : ℤ) : ℚ) = Int.fract q - 1 := by
    rw [Int.cast_add, Int.cast_one, ← hbelow]
    ring
  unfold nearestEven IsNearestEven
  split
  · next hdown =>
    rw [hbelow, abs_of_nonneg hnonneg]
    exact ⟨hdown.le, fun htie => absurd htie hdown.ne⟩
  · next hdown =>
    split
    · next hup =>
      rw [habove, abs_of_nonpos (by linarith)]
      exact ⟨by linarith, fun htie => absurd htie (by linarith)⟩
    · next hup =>
      have htie : Int.fract q = 1 / 2 := le_antisymm (not_lt.mp hup) (not_lt.mp hdown)
      split
      · next heven =>
        rw [hbelow, htie]
        exact ⟨by norm_num, fun _ => heven⟩
      · next hodd =>
        rw [habove, htie]
        exact ⟨by norm_num, fun _ => (Int.not_even_iff_odd.mp hodd).add_one⟩

/-- No two whole numbers are nearest and even. -/
theorem IsNearestEven.unique {q : ℚ} {m n : ℤ} (hm : IsNearestEven q m) (hn : IsNearestEven q n) :
    m = n := by
  -- Both lie within half a unit. If they differ, then by one, and both are ties.
  obtain ⟨hm, hmeven⟩ := hm
  obtain ⟨hn, hneven⟩ := hn
  obtain ⟨hm₁, hm₂⟩ := abs_le.mp hm
  obtain ⟨hn₁, hn₂⟩ := abs_le.mp hn
  have hdown : m ≤ n + 1 := by
    have hle : (m : ℚ) ≤ (n + 1 : ℤ) := by
      push_cast
      linarith
    exact_mod_cast hle
  have hup : n ≤ m + 1 := by
    have hle : (n : ℚ) ≤ (m + 1 : ℤ) := by
      push_cast
      linarith
    exact_mod_cast hle
  by_contra hne
  have htie : |q - m| = 1 / 2 ∧ |q - n| = 1 / 2 := by
    rcases (by omega : m = n + 1 ∨ n = m + 1) with rfl | rfl
    · push_cast at *
      exact ⟨by rw [abs_of_nonpos] <;> linarith, by rw [abs_of_nonneg] <;> linarith⟩
    · push_cast at *
      exact ⟨by rw [abs_of_nonneg] <;> linarith, by rw [abs_of_nonpos] <;> linarith⟩
  obtain ⟨i, hi⟩ := hmeven htie.1
  obtain ⟨j, hj⟩ := hneven htie.2
  omega

/-- There is only one such integer. -/
theorem IsNearestEven.eq_nearestEven {q : ℚ} {n : ℤ} (h : IsNearestEven q n) : n = nearestEven q :=
  h.unique (isNearestEven_nearestEven q)

/-- Rounding half to even is symmetric about zero. -/
theorem IsNearestEven.neg {q : ℚ} {n : ℤ} (h : IsNearestEven q n) : IsNearestEven (-q) (-n) := by
  have hdistance : |-q - ((-n : ℤ) : ℚ)| = |q - n| := by
    rw [← abs_neg]
    congr 1
    push_cast
    ring
  rw [IsNearestEven, hdistance]
  exact ⟨h.1, fun htie => (h.2 htie).neg⟩

/-- Distances from a quotient are those of whole numbers. -/
theorem isNearestEven_div_iff {n k : ℤ} {d : Nat} (hd : 0 < d) :
    IsNearestEven (n / d) k ↔ |2 * (n - k * d)| ≤ d ∧ (|2 * (n - k * d)| = d → Even k) := by
  have hpos : (0 : ℚ) < d := Nat.cast_pos.mpr hd
  have hdistance : |(n : ℚ) / d - k| = (|2 * (n - k * d)| : ℤ) / (2 * d) := by
    have hdiv : (n : ℚ) / d - k = (2 * (n - k * d) : ℤ) / (2 * d) := by
      push_cast
      field_simp
    rw [hdiv, abs_div, Int.cast_abs, abs_of_pos (by linarith : (0 : ℚ) < 2 * d)]
  have hhalf : (1 : ℚ) / 2 = (d : ℤ) / (2 * d) := by
    rw [Int.cast_natCast]
    field_simp
  have htwice : (0 : ℚ) < 2 * d := by linarith
  rw [IsNearestEven, hdistance, hhalf, div_le_div_iff_of_pos_right htwice, Int.cast_le,
    div_left_inj' htwice.ne', Int.cast_inj]

/-- Whole numbers are divided to the nearest whole number, ties to even. -/
theorem isNearestEven_halfEven (n : Nat) {d : Nat} (hd : 0 < d) :
    IsNearestEven (n / d) (halfEven n d : Nat) := by
  have hlt : n % d < d := Nat.mod_lt n hd
  have hsplit : (n : ℤ) - (n / d : Nat) * d = (n % d : Nat) := by
    have hmod := Nat.div_add_mod n d
    zify at hmod ⊢
    linarith
  have hcast : (n : ℚ) = (n : ℤ) := rfl
  rw [hcast, isNearestEven_div_iff hd]
  unfold halfEven
  dsimp only
  split
  · next hup =>
    have hrest : 2 * ((n : ℤ) - ((n / d + 1 : Nat) : ℤ) * d) = 2 * (n % d : Nat) - 2 * d := by
      rw [← hsplit]
      push_cast
      ring
    rw [hrest]
    constructor
    · rw [abs_le]
      omega
    · intro htie
      rw [abs_of_nonpos (by omega)] at htie
      rw [Int.even_coe_nat, Nat.even_add_one, Nat.not_even_iff_odd, Nat.odd_iff]
      omega
  · next hdown =>
    rw [hsplit]
    constructor
    · rw [abs_le]
      omega
    · intro htie
      rw [abs_of_nonneg (by omega)] at htie
      rw [Int.even_coe_nat, Nat.even_iff]
      omega

namespace Decimal

/-! ## Signs and magnitudes -/

/-- The number of a decimal without its sign. -/
def magnitude (a : Decimal) : ℚ := a.coefficient / tenPow a.scale

/-- The value of a decimal is its magnitude with its sign. -/
theorem toRat_eq_magnitude (a : Decimal) :
    a.toRat = if a.negative then -a.magnitude else a.magnitude := by
  unfold toRat signed magnitude
  cases a.negative with
  | false => simp
  | true => simp [neg_div]

/-- A magnitude is not negative. -/
theorem magnitude_nonneg (a : Decimal) : 0 ≤ a.magnitude :=
  div_nonneg (Nat.cast_nonneg _) (Nat.cast_nonneg _)

/-- A whole number has the value of its digits with its sign. -/
theorem toRat_whole (negative : Bool) (n : Nat) (h : n < limit) :
    (whole negative n h).toRat = if negative then -(n : ℚ) else n := by
  rw [toRat_eq_magnitude]
  show (if negative then -((n : ℚ) / (1 : Nat)) else (n : ℚ) / (1 : Nat)) = _
  rw [Nat.cast_one, div_one]

/-- The absolute value of a decimal is that of its value. -/
theorem toRat_abs (a : Decimal) : a.abs.toRat = |a.toRat| := by
  have habs : a.abs.toRat = a.magnitude := toRat_eq_magnitude a.abs
  rw [habs, toRat_eq_magnitude]
  cases a.negative with
  | false => exact (abs_of_nonneg a.magnitude_nonneg).symm
  | true => exact ((abs_neg a.magnitude).trans (abs_of_nonneg a.magnitude_nonneg)).symm

/-! ## Comparison -/

/-- Decimals are compared as their values are. -/
theorem lt_iff (a b : Decimal) : a.lt b = true ↔ a.toRat < b.toRat := by
  have hunit := tenPow_cast_pos (Nat.max a.scale b.scale)
  rw [toRat_eq_signedAt a (Nat.le_max_left a.scale b.scale),
    toRat_eq_signedAt b (Nat.le_max_right a.scale b.scale),
    div_lt_div_iff_of_pos_right hunit, Int.cast_lt, lt, beq_iff_eq, compare, Int.compare_eq_lt]

/-- The smaller of two decimals has the smaller value. -/
theorem toRat_min (a b : Decimal) : (a.min b).toRat = Min.min a.toRat b.toRat := by
  unfold min
  split
  · next h => exact (min_eq_right ((lt_iff b a).mp h).le).symm
  · next h => exact (min_eq_left (not_lt.mp fun hlt => h ((lt_iff b a).mpr hlt))).symm

/-- The greater of two decimals has the greater value. -/
theorem toRat_max (a b : Decimal) : (a.max b).toRat = Max.max a.toRat b.toRat := by
  unfold max
  split
  · next h => exact (max_eq_right ((lt_iff a b).mp h).le).symm
  · next h => exact (max_eq_left (not_lt.mp fun hlt => h ((lt_iff a b).mpr hlt))).symm

/-! ## Differences and products -/

/-- What is representable stays so with the other sign. -/
theorem Representable.neg {q : ℚ} (h : Representable q) : Representable (-q) := by
  obtain ⟨a, rfl⟩ := h
  exact ⟨a.neg, toRat_neg a⟩

/-- **Representable differences are exact.** -/
theorem sub?_of_representable {a b : Decimal} (h : Representable (a.toRat - b.toRat)) :
    ∃ difference, a.sub? b = some difference ∧ difference.toRat = a.toRat - b.toRat := by
  -- Subtraction adds the number with the opposite sign, zeros aside.
  unfold sub?
  by_cases ha : a.isZero = true
  · rw [if_pos ha, toRat_of_isZero ha, zero_sub]
    split
    · next hb => exact ⟨b, rfl, by rw [toRat_of_isZero hb, neg_zero]⟩
    · exact ⟨b.neg, rfl, toRat_neg b⟩
  · rw [if_neg ha]
    by_cases hb : b.isZero = true
    · rw [if_pos hb, toRat_of_isZero hb, sub_zero]
      exact ⟨a, rfl, rfl⟩
    · rw [if_neg hb]
      rw [sub_eq_add_neg, ← toRat_neg] at h ⊢
      obtain ⟨sum, hsum, hvalue⟩ := add?_of_representable h
      have hneg : ¬ b.neg.isZero = true := hb
      rw [add?, if_neg ha, if_neg hneg] at hsum
      exact ⟨sum, hsum, hvalue⟩

/-- The number of a product by the signs and the coefficients. -/
theorem toRat_mul_toRat (a b : Decimal) :
    a.toRat * b.toRat =
      ((if a.negative != b.negative then -(a.coefficient * b.coefficient : Nat)
        else (a.coefficient * b.coefficient : Nat) : Int) : ℚ) / tenPow (a.scale + b.scale) := by
  have hsigned : a.signed * b.signed =
      if a.negative != b.negative then -((a.coefficient * b.coefficient : Nat) : Int)
        else (a.coefficient * b.coefficient : Nat) := by
    unfold signed
    cases a.negative <;> cases b.negative <;> simp
  rw [toRat, toRat, div_mul_div_comm, tenPow_add, Nat.cast_mul (tenPow a.scale), ← Int.cast_mul,
    hsigned]

/-- Small coefficients have no product with so many digits that no decimal holds it. -/
theorem not_representable_of_small {n scale : Nat} (hpos : 0 < n) (hsmall : n < twoPow 64)
    (hscale : 47 < scale) : ¬ Representable (n / tenPow scale) := by
  intro h
  obtain ⟨zeros, -, hdvd, hfits, -⟩ := exists_zeros_of_representable h
  have hzeros : tenPow 20 ≤ tenPow zeros :=
    Nat.pow_le_pow_right (by decide) (by unfold maxScale at hfits; omega)
  have hle := Nat.le_of_dvd hpos hdvd
  have hbound : twoPow 64 < tenPow 20 := by decide
  omega

/-- **Representable products are exact.** -/
theorem mul?_of_representable {a b : Decimal} (h : Representable (a.toRat * b.toRat)) :
    ∃ product, a.mul? b = some product ∧ product.toRat = a.toRat * b.toRat := by
  unfold mul?
  split
  · next hzero =>
    refine ⟨zero, rfl, ?_⟩
    rcases Bool.or_eq_true_iff.mp hzero with ha | hb
    · rw [toRat_of_isZero ha, toRat_zero, zero_mul]
    · rw [toRat_of_isZero hb, toRat_zero, mul_zero]
  · next hzero =>
    have hmagnitude : Representable
        ((a.coefficient * b.coefficient : Nat) / tenPow (a.scale + b.scale)) := by
      rw [toRat_mul_toRat] at h
      split at h
      · have hneg := h.neg
        rwa [← neg_div, Int.cast_neg, neg_neg, Int.cast_natCast] at hneg
      · rwa [Int.cast_natCast] at h
    obtain ⟨product, hproduct, hvalue⟩ :=
      fit?_of_representable (a.negative != b.negative) hmagnitude
    rw [← toRat_mul_toRat] at hvalue
    dsimp only
    rw [hproduct]
    split
    · next hsmall =>
      -- So small a product would be dropped, but it would not be representable.
      simp only [Bool.and_eq_true, decide_eq_true_eq] at hsmall
      obtain ⟨⟨ha, hb⟩, hscale⟩ := hsmall
      simp only [isZero, Bool.or_eq_true, beq_iff_eq, not_or] at hzero
      refine absurd hmagnitude (not_representable_of_small ?_ ?_ hscale)
      · exact Nat.mul_pos (Nat.pos_of_ne_zero hzero.1) (Nat.pos_of_ne_zero hzero.2)
      · have hbound : twoPow 64 = twoPow 32 * twoPow 32 := by decide
        rw [hbound]
        exact Nat.mul_lt_mul'' ha hb
    · split
      · exact ⟨product.positiveZero, rfl, by rw [toRat_positiveZero, hvalue]⟩
      · exact ⟨product, rfl, hvalue⟩

/-! ## Roundings to whole numbers -/

/-- Without digits behind the point the magnitude is the coefficient. -/
theorem magnitude_of_scale_eq_zero {a : Decimal} (h : a.scale = 0) :
    a.magnitude = a.coefficient := by
  rw [magnitude, h]
  exact div_one _

/-- A nearest magnitude with the sign of the decimal is nearest to the decimal. -/
theorem nearestEven_toRat {a : Decimal} {n : Nat} (h : IsNearestEven a.magnitude n) :
    (nearestEven a.toRat : ℚ) = if a.negative then -(n : ℚ) else n := by
  rw [toRat_eq_magnitude]
  cases a.negative with
  | false =>
    show ((nearestEven a.magnitude : ℤ) : ℚ) = n
    rw [← h.eq_nearestEven, Int.cast_natCast]
  | true =>
    show ((nearestEven (-a.magnitude) : ℤ) : ℚ) = -n
    rw [← h.neg.eq_nearestEven, Int.cast_neg, Int.cast_natCast]

/-- A whole number is rounded to itself. -/
theorem isNearestEven_natCast (n : Nat) : IsNearestEven n n := by
  rw [IsNearestEven, Int.cast_natCast, sub_self, abs_zero]
  exact ⟨by norm_num, fun htie => absurd htie (by norm_num)⟩

/-- **Rounding is to the nearest whole number, ties to even.** -/
theorem toRat_round (a : Decimal) : a.round.toRat = nearestEven a.toRat := by
  unfold round
  split
  · next hscale =>
    have hwhole := magnitude_of_scale_eq_zero hscale
    rw [nearestEven_toRat (hwhole ▸ isNearestEven_natCast a.coefficient), toRat_eq_magnitude,
      hwhole]
  · next hscale =>
    have hnearest : IsNearestEven a.magnitude (halfEven a.coefficient (tenPow a.scale) : Nat) :=
      isNearestEven_halfEven a.coefficient (tenPow_pos a.scale)
    split
    · next hzero =>
      have hmagnitude : a.magnitude = (0 : Nat) := by
        rw [magnitude, hzero, Nat.cast_zero, zero_div]
      rw [nearestEven_toRat (hmagnitude ▸ isNearestEven_natCast 0)]
      exact toRat_whole a.negative 0 (by decide)
    · rw [nearestEven_toRat hnearest, toRat_whole]
      -- A zero that comes out has lost its sign, which does not count.
      by_cases hrounded : halfEven a.coefficient (tenPow a.scale) = 0
      · simp [hrounded]
      · simp [hrounded]

/-- The magnitude rounded down is what the coefficient has before the point. -/
theorem floor_magnitude (a : Decimal) :
    ⌊a.magnitude⌋ = (a.coefficient / tenPow a.scale : Nat) :=
  Rat.floor_natCast_div_natCast a.coefficient (tenPow a.scale)

/-- The magnitude rounded up is one more, if there are digits behind the point that are not zero. -/
theorem ceil_magnitude (a : Decimal) :
    ⌈a.magnitude⌉ = (if a.coefficient % tenPow a.scale ≠ 0 then a.coefficient / tenPow a.scale + 1
      else a.coefficient / tenPow a.scale : Nat) := by
  have hpos := tenPow_cast_pos a.scale
  have hsplit := Nat.div_add_mod a.coefficient (tenPow a.scale)
  split
  · next hrest =>
    rw [Int.ceil_eq_iff, magnitude, lt_div_iff₀ hpos, div_le_iff₀ hpos]
    have hlt := Nat.mod_lt a.coefficient (tenPow_pos a.scale)
    have hmod : 0 < a.coefficient % tenPow a.scale := Nat.pos_of_ne_zero hrest
    push_cast
    constructor
    · have hlow : a.coefficient / tenPow a.scale * tenPow a.scale < a.coefficient := by
        rw [Nat.mul_comm]
        omega
      rw [add_sub_cancel_right]
      exact_mod_cast hlow
    · have hhigh : a.coefficient ≤ (a.coefficient / tenPow a.scale + 1) * tenPow a.scale := by
        rw [Nat.add_mul, Nat.one_mul, Nat.mul_comm]
        omega
      exact_mod_cast hhigh
  · next hrest =>
    obtain ⟨whole, hwhole⟩ := Nat.dvd_of_mod_eq_zero (not_not.mp hrest)
    rw [magnitude, hwhole, Nat.mul_div_cancel_left whole (tenPow_pos a.scale), Nat.cast_mul,
      mul_div_cancel_left₀ _ hpos.ne', Int.ceil_natCast]

/-- A rounding toward zero or away from it rounds the magnitude down or up. -/
theorem toRat_wholeToward (a : Decimal) (away : Bool) :
    (a.wholeToward away).toRat =
      if a.negative then -((if away then ⌈a.magnitude⌉ else ⌊a.magnitude⌋ : ℤ) : ℚ)
      else (if away then ⌈a.magnitude⌉ else ⌊a.magnitude⌋ : ℤ) := by
  unfold wholeToward
  split
  · next hscale =>
    have hwhole := magnitude_of_scale_eq_zero hscale
    rw [toRat_eq_magnitude, hwhole, Int.ceil_natCast, Int.floor_natCast, ite_self,
      Int.cast_natCast]
  · split
    · next haway =>
      rw [Bool.and_eq_true, bne_iff_ne] at haway
      rw [toRat_whole, if_pos haway.1, ceil_magnitude, if_pos haway.2, Int.cast_natCast]
    · next haway =>
      have hsame : (if away then ⌈a.magnitude⌉ else ⌊a.magnitude⌋) =
          (a.coefficient / tenPow a.scale : Nat) := by
        rw [ceil_magnitude, floor_magnitude]
        cases away with
        | false => rfl
        | true =>
          have hrest : ¬ a.coefficient % tenPow a.scale ≠ 0 := by simpa using haway
          rw [if_pos rfl, if_neg hrest]
      rw [toRat_whole, hsame, Int.cast_natCast]

/-- **Rounding down is to the greatest whole number that is not above.** -/
theorem toRat_floor (a : Decimal) : a.floor.toRat = ⌊a.toRat⌋ := by
  rw [floor, toRat_wholeToward, toRat_eq_magnitude]
  cases a.negative with
  | false => rfl
  | true =>
    show -((⌈a.magnitude⌉ : ℤ) : ℚ) = ((⌊-a.magnitude⌋ : ℤ) : ℚ)
    rw [Int.floor_neg, Int.cast_neg]

/-- **Rounding up is to the least whole number that is not below.** -/
theorem toRat_ceiling (a : Decimal) : a.ceiling.toRat = ⌈a.toRat⌉ := by
  rw [ceiling, toRat_wholeToward, toRat_eq_magnitude]
  cases a.negative with
  | false => rfl
  | true =>
    show -((⌊a.magnitude⌋ : ℤ) : ℚ) = ((⌈-a.magnitude⌉ : ℤ) : ℚ)
    rw [Int.ceil_neg, Int.cast_neg]

end Decimal

end Tariff
