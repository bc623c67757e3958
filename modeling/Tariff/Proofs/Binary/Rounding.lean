/-
# Rounding to doubles

A result is computed with all its bits, of which the last ones are dropped again. Two bits remember
what was dropped: whether it was half a unit at least, and whether there was more to it.

* `Approximates.shiftRight` : bits are dropped and remembered;
* `Approximates.nearest` : the significand is rounded to the nearest one, in a tie to the even one;
* `exists_roundWithAccuracy` : the interval around a result holds the number that was rounded.
-/
import Tariff.Proofs.Binary.Shortest

namespace Tariff

open Float.Model Float.Model.UnpackedFloat

variable {em : ExtendedMantissa} {t : ℚ}

/-! ## Dropped bits -/

/-- What a significand and the two bits say about the number that they were left of. -/
def Approximates (em : ExtendedMantissa) (t : ℚ) : Prop :=
  match em.roundBit, em.stickyBit with
  | false, false => t = em.mantissa
  | false, true => em.mantissa < t ∧ t < em.mantissa + 1 / 2
  | true, false => t = em.mantissa + 1 / 2
  | true, true => em.mantissa + 1 / 2 < t ∧ t < em.mantissa + 1

/-- One more bit is dropped. -/
theorem Approximates.shiftRightOne (h : Approximates em t) :
    Approximates em.shiftRightOne (t / 2) := by
  obtain ⟨m, round, sticky⟩ := em
  rcases Nat.even_or_odd' m with ⟨half, rfl | rfl⟩
  · have hdiv : 2 * half / 2 = half := by omega
    have hbit : (2 * half % 2 != 0) = false := by simp
    cases round <;> cases sticky <;>
      simp only [Approximates, ExtendedMantissa.shiftRightOne, hdiv, hbit, Bool.or_false,
        Bool.or_true, Nat.cast_mul, Nat.cast_ofNat] at h ⊢ <;>
      first | linarith | exact ⟨by linarith, by linarith⟩
  · have hdiv : (2 * half + 1) / 2 = half := by omega
    have hbit : ((2 * half + 1) % 2 != 0) = true := by simp
    cases round <;> cases sticky <;>
      simp only [Approximates, ExtendedMantissa.shiftRightOne, hdiv, hbit, Bool.or_false,
        Bool.or_true, Nat.cast_mul, Nat.cast_ofNat, Nat.cast_add, Nat.cast_one] at h ⊢ <;>
      first | linarith | exact ⟨by linarith, by linarith⟩

/-- Any number of bits is dropped. -/
theorem Approximates.shiftRight (h : Approximates em t) (count : Nat) :
    Approximates (em >>> count) (t / 2 ^ count) := by
  change Approximates (count.repeat ExtendedMantissa.shiftRightOne em) _
  induction count with
  | zero => rwa [pow_zero, div_one]
  | succ count ih =>
    rw [pow_succ, ← div_div]
    exact ih.shiftRightOne

/-- A number lies between its significand and the next one. -/
theorem Approximates.bounds (h : Approximates em t) :
    (em.mantissa : ℚ) ≤ t ∧ t < em.mantissa + 1 := by
  obtain ⟨m, round, sticky⟩ := em
  cases round <;> cases sticky <;> simp only [Approximates] at h <;>
    exact ⟨by linarith, by linarith⟩

theorem mantissa_shiftRight (em : ExtendedMantissa) (count : Nat) :
    (em >>> count).mantissa = em.mantissa / 2 ^ count := by
  change (count.repeat ExtendedMantissa.shiftRightOne em).mantissa = _
  induction count with
  | zero => rw [pow_zero, Nat.div_one]; rfl
  | succ count ih =>
    rw [pow_succ, ← Nat.div_div_eq_div_mul, ← ih]
    rfl

/-! ## Rounding the significand -/

/-- A whole number nearest to a number, which is even in a tie. -/
structure Nearest (r : Nat) (t : ℚ) : Prop where
  lower : (r : ℚ) - 1 / 2 ≤ t
  upper : t ≤ r + 1 / 2
  tie : r % 2 = 1 → (r : ℚ) - 1 / 2 < t ∧ t < r + 1 / 2

/-- The two bits decide how a significand is rounded. -/
theorem Approximates.nearest (h : Approximates em t) : Nearest em.roundedMantissa t := by
  obtain ⟨m, round, sticky⟩ := em
  cases round <;> cases sticky <;> simp only [Approximates] at h <;>
    simp only [ExtendedMantissa.roundedMantissa, ExtendedMantissa.accuracy,
      Accuracy.roundToNearestEven]
  · exact ⟨by linarith, by linarith, fun _ => ⟨by linarith, by linarith⟩⟩
  · exact ⟨by linarith, by linarith, fun _ => ⟨by linarith, by linarith⟩⟩
  · rcases Nat.mod_two_eq_zero_or_one m with hbit | hbit
    · rw [hbit, Nat.add_zero]
      exact ⟨by linarith, by linarith, fun hodd => by omega⟩
    · rw [hbit]
      refine ⟨?_, ?_, fun hodd => by omega⟩ <;> rw [Nat.cast_add, Nat.cast_one] <;> linarith
  · refine ⟨?_, ?_, fun _ => ⟨?_, ?_⟩⟩ <;> rw [Nat.cast_add, Nat.cast_one] <;> linarith

theorem roundedMantissa_bounds (em : ExtendedMantissa) :
    em.mantissa ≤ em.roundedMantissa ∧ em.roundedMantissa ≤ em.mantissa + 1 := by
  obtain ⟨m, round, sticky⟩ := em
  cases round <;> cases sticky <;>
    simp only [ExtendedMantissa.roundedMantissa, ExtendedMantissa.accuracy,
      Accuracy.roundToNearestEven] <;> omega

/-- The interval around a double holds what is rounded to its significand. Below a power of two the
interval is shorter. -/
theorem BinaryParts.holds_of_nearest {p : BinaryParts} (hpos : 0 < p.significand)
    (h : Nearest p.significand t)
    (hbinade : p.significand = twoPow 52 → (p.significand : ℚ) - 1 / 4 ≤ t) :
    (RoundingInterval.ofParts p).Holds (t * (2 : ℚ) ^ p.exponent) := by
  have hunit : (0 : ℚ) < 2 ^ p.exponent := zpow_pos (by norm_num) _
  have hquarter : (2 : ℚ) ^ (p.exponent - 2) = 1 / 4 * 2 ^ p.exponent := by
    rw [zpow_sub₀ (by norm_num)]
    ring
  have hlow : (RoundingInterval.ofParts p).low =
      (p.significand - p.lowerQuarters / 4) * (2 : ℚ) ^ p.exponent := by
    rw [BinaryParts.low_ofParts hpos, hquarter]
    ring
  have hhigh : (RoundingInterval.ofParts p).high =
      (p.significand + 1 / 2) * (2 : ℚ) ^ p.exponent := by
    rw [BinaryParts.high_ofParts, hquarter]
    ring
  unfold RoundingInterval.Holds
  rw [hlow, hhigh]
  by_cases heven : p.significand % 2 = 0
  · have hclosed : (RoundingInterval.ofParts p).closed = true := beq_iff_eq.mpr heven
    have hreach : (p.significand : ℚ) - p.lowerQuarters / 4 ≤ t := by
      unfold BinaryParts.lowerQuarters
      split
      · next hfirst =>
        have := hbinade hfirst.1
        push_cast
        linarith
      · have := h.lower
        push_cast
        linarith
    rw [if_pos hclosed]
    exact ⟨mul_le_mul_of_nonneg_right hreach hunit.le, mul_le_mul_of_nonneg_right h.upper hunit.le⟩
  · have hopen : ¬(RoundingInterval.ofParts p).closed = true := fun hclosed =>
      heven (beq_iff_eq.mp hclosed)
    have hlast : p.lowerQuarters = 2 := by
      refine if_neg fun hfirst => heven ?_
      rw [hfirst.1]
      decide +kernel
    obtain ⟨hlower, hupper⟩ := h.tie (by omega)
    rw [if_neg hopen, hlast]
    refine ⟨mul_lt_mul_of_pos_right ?_ hunit, mul_lt_mul_of_pos_right hupper hunit⟩
    push_cast
    linarith

/-- Where a significand gets one bit too many, half of it is the first one of the next units. -/
theorem BinaryParts.holds_of_carry (negative : Bool) {f : ℤ}
    (hlow : ((2 ^ 53 : Nat) : ℚ) - 1 / 2 ≤ t) (hhigh : t < ((2 ^ 53 : Nat) : ℚ)) :
    (RoundingInterval.ofParts ⟨negative, 2 ^ 52, f + 1⟩).Holds (t * (2 : ℚ) ^ f) := by
  have hhalf : t * (2 : ℚ) ^ f = t / 2 * 2 ^ (f + 1) := by
    rw [zpow_add_one₀ (by norm_num)]
    ring
  have hdouble : ((2 ^ 53 : Nat) : ℚ) = 2 * (2 ^ 52 : Nat) := by norm_num
  have heven : ¬2 ^ 52 % 2 = 1 := by decide +kernel
  have hbelow : t / 2 < ((2 ^ 52 : Nat) : ℚ) := by
    rw [hdouble] at hhigh
    exact (div_lt_iff₀' two_pos).mpr hhigh
  have habove : ((2 ^ 52 : Nat) : ℚ) - 1 / 4 ≤ t / 2 := by
    rw [hdouble] at hlow
    linarith
  rw [hhalf]
  refine BinaryParts.holds_of_nearest (p := ⟨negative, 2 ^ 52, f + 1⟩) (Nat.two_pow_pos 52)
    ⟨?_, ?_, fun hodd => absurd hodd heven⟩ fun _ => ?_
  · change ((2 ^ 52 : Nat) : ℚ) - 1 / 2 ≤ _
    linarith
  · change _ ≤ ((2 ^ 52 : Nat) : ℚ) + 1 / 2
    linarith
  · exact habove

/-! ## Rounding a result -/

theorem targetExponent_eq (m : Nat) (e : ℤ) :
    Format.binary64.targetExponent (totalExponent m e) = max ((m.log2 : ℤ) + e - 52) (-1074) := by
  show max ((m.log2 : ℤ) + 1 + e - (53 : Nat)) (3 - 2 ^ 10 - (53 : Nat)) = _
  omega

/-- As many bits are dropped as a significand has too many. -/
theorem shiftToTargetExponent_eq {m : Nat} {e : ℤ} (hfull : 52 ≤ m.log2)
    (he : -1074 ≤ e + (m.log2 - 52 : Nat)) (a : Accuracy) :
    shiftToTargetExponent Format.binary64 m e a =
      (ExtendedMantissa.ofMantissaAndAccuracy m a >>> (m.log2 - 52), e + (m.log2 - 52 : Nat)) := by
  have hcount : (Format.binary64.targetExponent (totalExponent m e) - e).toNat = m.log2 - 52 := by
    rw [targetExponent_eq]
    omega
  unfold shiftToTargetExponent shiftToExponent
  dsimp only
  rw [hcount]

theorem mantissa_ofMantissaAndAccuracy (m : Nat) (a : Accuracy) :
    (ExtendedMantissa.ofMantissaAndAccuracy m a).mantissa = m := by
  rcases a with _ | (_ | _ | _) <;> rfl

/-- What is left of a number without its last bits has as many bits as a significand. -/
theorem mantissa_shiftRight_bounds {m : Nat} (hfull : 52 ≤ m.log2) (a : Accuracy) :
    2 ^ 52 ≤ (ExtendedMantissa.ofMantissaAndAccuracy m a >>> (m.log2 - 52)).mantissa ∧
      (ExtendedMantissa.ofMantissaAndAccuracy m a >>> (m.log2 - 52)).mantissa < 2 ^ 53 := by
  have hm : m ≠ 0 := by
    rintro rfl
    rw [Nat.log2_zero] at hfull
    omega
  have hlow : 52 + (m.log2 - 52) = m.log2 := by omega
  have hhigh : 53 + (m.log2 - 52) = m.log2 + 1 := by omega
  rw [mantissa_shiftRight, mantissa_ofMantissaAndAccuracy]
  constructor
  · rw [Nat.le_div_iff_mul_le (Nat.two_pow_pos _), ← Nat.pow_add, hlow]
    exact Nat.log2_self_le hm
  · rw [Nat.div_lt_iff_lt_mul (Nat.two_pow_pos _), ← Nat.pow_add, hhigh]
    exact Nat.lt_log2_self

/-- A significand with the right number of bits is not shifted. -/
theorem shiftToTargetExponent_full {r : Nat} {f : ℤ} (hlower : 2 ^ 52 ≤ r) (hupper : r < 2 ^ 53)
    (hf : -1074 ≤ f) :
    shiftToTargetExponent Format.binary64 r f .exact = (⟨r, false, false⟩, f) := by
  have hlog : r.log2 = 52 := (Nat.log2_eq_iff (by omega)).mpr ⟨hlower, hupper⟩
  have hshift := @shiftToTargetExponent_eq r f (by omega) (by rw [hlog]; omega) .exact
  rw [hlog] at hshift
  rw [hshift, Nat.sub_self, Int.ofNat_zero, Int.add_zero]
  rfl

/-- A significand that has got one bit too many is shifted once. -/
theorem shiftToTargetExponent_carry {f : ℤ} (hf : -1074 ≤ f) :
    shiftToTargetExponent Format.binary64 (2 ^ 53) f .exact = (⟨2 ^ 52, false, false⟩, f + 1) := by
  have hlog : (2 ^ 53).log2 = 53 := Nat.log2_two_pow
  have hshift := @shiftToTargetExponent_eq (2 ^ 53) f (by omega) (by rw [hlog]; omega) .exact
  rw [hlog] at hshift
  exact hshift

/-- Rounding shifts, rounds the significand and shifts once more, in case that it has got one bit
too many. -/
theorem roundWithAccuracy_eq (sign : Sign) {m : Nat} {e f g : ℤ} {a : Accuracy}
    {kept last : ExtendedMantissa} (hkept : shiftToTargetExponent Format.binary64 m e a = (kept, f))
    (hlast : shiftToTargetExponent Format.binary64 kept.roundedMantissa f .exact = (last, g))
    (hpos : 0 < last.mantissa) :
    roundWithAccuracy Format.binary64 sign m e a = .finite sign last.mantissa g hpos := by
  unfold roundWithAccuracy
  rw [hkept]
  dsimp only
  rw [hlast]
  dsimp only
  rw [dif_neg hpos.ne']

/-- A number with all bits of a significand, rounded to a double. -/
theorem exists_roundWithAccuracy (sign : Sign) {m : Nat} {e : ℤ} {a : Accuracy}
    (hfull : 52 ≤ m.log2) (he : -1074 ≤ e + (m.log2 - 52 : Nat))
    (h : Approximates (ExtendedMantissa.ofMantissaAndAccuracy m a) t) :
    ∃ s f hpos, roundWithAccuracy Format.binary64 sign m e a = .finite sign s f hpos ∧
      twoPow 52 ≤ s ∧ s < twoPow 53 ∧
      e + (m.log2 - 52 : Nat) ≤ f ∧ f ≤ e + (m.log2 - 52 : Nat) + 1 ∧
      ∀ negative, (RoundingInterval.ofParts ⟨negative, s, f⟩).Holds (t * (2 : ℚ) ^ e) := by
  let count := m.log2 - 52
  let kept := ExtendedMantissa.ofMantissaAndAccuracy m a >>> count
  obtain ⟨hlower, hupper⟩ := mantissa_shiftRight_bounds hfull a
  change 2 ^ 52 ≤ kept.mantissa at hlower
  change kept.mantissa < 2 ^ 53 at hupper
  have hfirst := shiftToTargetExponent_eq hfull he a
  have hkept := h.shiftRight count
  have hrounded := roundedMantissa_bounds kept
  have hnumber : t * (2 : ℚ) ^ e = t / 2 ^ count * 2 ^ (e + count) := by
    rw [zpow_add₀ (by norm_num), zpow_natCast]
    field_simp
  rw [hnumber]
  by_cases hlast : kept.roundedMantissa < 2 ^ 53
  · have hsecond := shiftToTargetExponent_full (by omega) hlast he
    have hpos : 0 < kept.roundedMantissa := by omega
    refine ⟨kept.roundedMantissa, e + count, hpos, roundWithAccuracy_eq sign hfirst hsecond hpos,
      hlower.trans hrounded.1, hlast, le_refl _, by omega, fun negative => ?_⟩
    refine BinaryParts.holds_of_nearest (p := ⟨negative, kept.roundedMantissa, e + count⟩) hpos
      hkept.nearest fun hbinade => ?_
    change kept.roundedMantissa = 2 ^ 52 at hbinade
    have hsame : kept.roundedMantissa = kept.mantissa := by omega
    have hle : (kept.roundedMantissa : ℚ) ≤ t / 2 ^ count := by
      rw [hsame]
      exact hkept.bounds.1
    change (kept.roundedMantissa : ℚ) - 1 / 4 ≤ _
    linarith
  · have hcarry : kept.roundedMantissa = 2 ^ 53 := by omega
    have hsecond := shiftToTargetExponent_carry he
    rw [← hcarry] at hsecond
    refine ⟨2 ^ 52, e + count + 1, by decide, roundWithAccuracy_eq sign hfirst hsecond (by decide),
      le_refl _, by decide +kernel, by omega, le_refl _, fun negative => ?_⟩
    have hreach : ((2 ^ 53 : Nat) : ℚ) - 1 / 2 ≤ t / 2 ^ count := hcarry ▸ hkept.nearest.lower
    have hnext : (kept.mantissa : ℚ) + 1 ≤ ((2 ^ 53 : Nat) : ℚ) := by exact_mod_cast hupper
    exact BinaryParts.holds_of_carry negative hreach (hkept.bounds.2.trans_le hnext)

end Tariff
