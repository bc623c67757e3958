/-
# Arithmetic of doubles

Products and quotients of doubles are computed with all their bits and rounded once. Where both
operands stand for whole numbers, the result is the double that the exact product or quotient is
rounded to.

* `BinaryParts.ofFloat?_eq`, `unpack_pack` : the parts of a double and its bits;
* `BinaryParts.eq_of_holds` : a double is rounded to itself;
* `StandsFor.mul`, `StandsFor.div` : products and quotients;
* `standsFor_ofScientific`, `standsFor_powerOfTen` : whole numbers and powers of ten.
-/
import Tariff.Json.Number
import Tariff.Proofs.Binary.Rounding

namespace Tariff

open Float.Model Float.Model.UnpackedFloat

/-! ## Bits -/

theorem ofBitVec_toBitVec (sign : Sign) : Sign.ofBitVec sign.toBitVec = sign := by
  cases sign <;> rfl

theorem toNat_unpackExponent (bits : BitVec 64) :
    (@unpackExponent Format.binary64 bits).toNat = bits.toNat / twoPow 52 % twoPow 11 := by
  unfold unpackExponent
  rw [BitVec.toNat_cast, BitVec.extractLsb_toNat, Nat.shiftRight_eq_div_pow]
  rfl

theorem toNat_unpackMantissa (bits : BitVec 64) :
    (@unpackMantissa Format.binary64 bits).toNat = bits.toNat % twoPow 52 := by
  unfold unpackMantissa
  rw [BitVec.toNat_cast, BitVec.extractLsb_toNat, Nat.shiftRight_zero]
  rfl

theorem toNat_unpackSign (bits : BitVec 64) :
    (@unpackSign Format.binary64 bits).toNat = bits.toNat / twoPow 63 := by
  have hbound : bits.toNat / 2 ^ 63 < 2 := by
    have := bits.isLt
    omega
  show (BitVec.cast _ (bits.extractLsb 63 63)).toNat = _
  rw [BitVec.toNat_cast, BitVec.extractLsb_toNat, Nat.shiftRight_eq_div_pow]
  exact Nat.mod_eq_of_lt hbound

/-- The bit in front of the fraction. -/
theorem toNat_one_append (fraction : BitVec 52) :
    (1#1 ++ fraction).toNat = fraction.toNat + twoPow 52 := by
  rw [BitVec.toNat_append, ← Nat.shiftLeft_add_eq_or_of_lt fraction.isLt]
  exact Nat.add_comm _ _

/-- The sign stands in front of the bits of the exponent and of the fraction. -/
theorem unpackSign_packComponents (sign : Sign) (exponent : BitVec 11) (fraction : BitVec 52) :
    @unpackSign Format.binary64 (packComponents Format.binary64 sign exponent fraction) =
      sign.toBitVec := by
  have hbits : (packComponents Format.binary64 sign exponent fraction).toNat =
      (sign.toBitVec.toNat * 2 ^ 11 + exponent.toNat) * 2 ^ 52 + fraction.toNat := by
    show (sign.toBitVec ++ exponent ++ fraction).toNat = _
    rw [BitVec.toNat_append, ← Nat.shiftLeft_add_eq_or_of_lt fraction.isLt, BitVec.toNat_append,
      ← Nat.shiftLeft_add_eq_or_of_lt exponent.isLt, Nat.shiftLeft_eq, Nat.shiftLeft_eq]
  have hexponent := exponent.isLt
  have hfraction := fraction.isLt
  apply BitVec.eq_of_toNat_eq
  rw [toNat_unpackSign, hbits]
  show _ / 2 ^ 63 = _
  omega

/-- Whether a sign is a minus sign. -/
def isMinus : Sign → Bool
  | .negative => true
  | .positive => false

theorem isMinus_ofBitVec (bit : BitVec 1) : isMinus (Sign.ofBitVec bit) = (bit.toNat == 1) := by
  revert bit
  decide

/-- The parts of a double that is computed with. -/
def partsOf : UnpackedFloat → Option BinaryParts
  | .finite sign s f _ => some ⟨isMinus sign, s, f⟩
  | .zero sign => some ⟨isMinus sign, 0, -1074⟩
  | _ => none

/-- The parts of a double are those that it is computed with. -/
theorem BinaryParts.ofFloat?_eq (x : Float) :
    BinaryParts.ofFloat? x = partsOf x.toModel.unpack := by
  let bits := x.toModel.toBits.toBitVec
  have hbiased : x.toBits.toNat / twoPow 52 % twoPow 11 =
      (@unpackExponent Format.binary64 bits).toNat := (toNat_unpackExponent bits).symm
  have hfraction : x.toBits.toNat % twoPow 52 =
      (@unpackMantissa Format.binary64 bits).toNat := (toNat_unpackMantissa bits).symm
  have hminus : (x.toBits.toNat / twoPow 63 == 1) =
      isMinus (Sign.ofBitVec (@unpackSign Format.binary64 bits)) := by
    rw [isMinus_ofBitVec, toNat_unpackSign]
    rfl
  change _ = partsOf (UnpackedFloat.unpack Format.binary64 bits)
  unfold BinaryParts.ofFloat? UnpackedFloat.unpack
  dsimp only
  rw [hbiased, hfraction, hminus]
  by_cases hall : @unpackExponent Format.binary64 bits = -1#11
  · have hall' : (@unpackExponent Format.binary64 bits).toNat = 2047 :=
      congrArg BitVec.toNat hall
    rw [if_pos hall', if_pos hall]
    by_cases hzero : @unpackMantissa Format.binary64 bits = 0#52
    · rw [if_pos hzero]
      rfl
    · rw [if_neg hzero]
      rfl
  · have hall' : (@unpackExponent Format.binary64 bits).toNat ≠ 2047 := fun h =>
      hall (BitVec.eq_of_toNat_eq h)
    rw [if_neg hall', if_neg hall]
    by_cases hnone : @unpackExponent Format.binary64 bits = 0#11
    · have hnone' : (@unpackExponent Format.binary64 bits).toNat = 0 :=
        congrArg BitVec.toNat hnone
      rw [if_pos hnone', if_pos hnone, hnone']
      by_cases hzero : @unpackMantissa Format.binary64 bits = 0#52
      · rw [dif_pos hzero, hzero]
        rfl
      · rw [dif_neg hzero]
        rfl
    · have hnone' : (@unpackExponent Format.binary64 bits).toNat ≠ 0 := fun h =>
        hnone (BitVec.eq_of_toNat_eq h)
      rw [if_neg hnone', if_neg hnone, ← toNat_one_append]
      rfl

/-- The bits of a double with all bits of its significand. -/
theorem unpack_of_bits {bits : BitVec 64} {sign : Sign} {s : Nat} {f : ℤ} {hpos}
    (hall : @unpackExponent Format.binary64 bits ≠ -1#11)
    (hnone : @unpackExponent Format.binary64 bits ≠ 0#11)
    (hsign : Sign.ofBitVec (@unpackSign Format.binary64 bits) = sign)
    (hs : (@unpackMantissa Format.binary64 bits).toNat + twoPow 52 = s)
    (hf : ((@unpackExponent Format.binary64 bits).toNat : ℤ) - 1075 = f) :
    UnpackedFloat.unpack Format.binary64 bits = .finite sign s f hpos := by
  rw [← toNat_one_append] at hs
  subst hsign hs hf
  unfold UnpackedFloat.unpack
  dsimp only
  rw [if_neg hall, if_neg hnone]
  rfl

/-- A double with all bits of its significand is kept by packing it. -/
theorem unpack_pack {sign : Sign} {s : Nat} {f : ℤ} {hpos} (hlower : twoPow 52 ≤ s)
    (hupper : s < twoPow 53) (hf : -1074 ≤ f) (hf' : f ≤ 971) :
    UnpackedFloat.unpack Format.binary64
      (UnpackedFloat.pack Format.binary64 (.finite sign s f hpos)) = .finite sign s f hpos := by
  change 2 ^ 52 ≤ s at hlower
  change s < 2 ^ 53 at hupper
  have hlog : s.log2 = 52 := (Nat.log2_eq_iff hpos.ne').mpr ⟨hlower, hupper⟩
  obtain ⟨biased, hbiased⟩ : ∃ n : Nat, f + 1075 = n := ⟨(f + 1075).toNat, by omega⟩
  have hexponent : (f + (Format.binary64.exponentBias : ℤ) + (52 : Nat)).toNat = biased := by
    have hbias : Format.binary64.exponentBias = 1023 := rfl
    rw [hbias]
    omega
  have hpack : UnpackedFloat.pack Format.binary64 (.finite sign s f hpos) =
      packComponents Format.binary64 sign (BitVec.ofNat 11 biased) (BitVec.ofNat 52 s) := by
    unfold UnpackedFloat.pack
    dsimp only
    rw [hexponent, hlog, if_neg (by show ¬2 ^ 11 ≤ biased + 1; omega)]
    rfl
  have hexponent' : (BitVec.ofNat 11 biased).toNat = biased := by
    rw [BitVec.toNat_ofNat]
    exact Nat.mod_eq_of_lt (by omega)
  rw [hpack]
  refine unpack_of_bits ?_ ?_ ?_ ?_ ?_
  · rw [unpackExponent_packComponents]
    intro hall
    have hvalue : biased = 2047 := hexponent' ▸ congrArg BitVec.toNat hall
    omega
  · rw [unpackExponent_packComponents]
    intro hnone
    have hvalue : biased = 0 := hexponent' ▸ congrArg BitVec.toNat hnone
    omega
  · rw [unpackSign_packComponents, ofBitVec_toBitVec]
  · rw [unpackMantissa_packComponents, BitVec.toNat_ofNat]
    show s % 2 ^ 52 + 2 ^ 52 = s
    omega
  · rw [unpackExponent_packComponents, hexponent']
    omega

/-! ## Doubles with all bits -/

/-- A positive double with all bits of its significand. -/
structure HasParts (x : Float) (s : Nat) (f : ℤ) : Prop where
  unpack : ∃ hpos, x.toModel.unpack = .finite .positive s f hpos
  lower : twoPow 52 ≤ s
  upper : s < twoPow 53

/-- A double stands for a whole number, which is less than `2 ^ 74`. -/
def StandsFor (x : Float) (n : Nat) : Prop :=
  ∃ s f, HasParts x s f ∧ -52 ≤ f ∧ f ≤ 21 ∧ (n : ℚ) = s * 2 ^ f

/-- A number is rounded to a double with all bits of its significand. -/
def RoundsTo (q : ℚ) (x : Float) : Prop :=
  ∃ s f, HasParts x s f ∧ -1074 ≤ f ∧ f ≤ 971 ∧
    ∀ negative, (RoundingInterval.ofParts ⟨negative, s, f⟩).Holds q

/-- The result of rounding, put into a double. -/
theorem roundsTo_of_round {x : Float} {m : Nat} {e : ℤ} {a : Accuracy} {t : ℚ}
    (hx : x = Float.ofModel (Float.Model.pack (roundWithAccuracy Format.binary64 .positive m e a)))
    (hfull : 52 ≤ m.log2) (he : -1074 ≤ e + (m.log2 - 52 : Nat))
    (he' : e + (m.log2 - 52 : Nat) ≤ 970)
    (h : Approximates (ExtendedMantissa.ofMantissaAndAccuracy m a) t) :
    RoundsTo (t * 2 ^ e) x := by
  obtain ⟨s, f, hpos, hround, hlower, hupper, hf, hf', hholds⟩ :=
    exists_roundWithAccuracy .positive hfull he h
  refine ⟨s, f, ⟨⟨hpos, ?_⟩, hlower, hupper⟩, by omega, by omega, hholds⟩
  rw [hx, hround]
  exact unpack_pack hlower hupper (by omega) (by omega)

/-- Products are rounded once. -/
theorem StandsFor.mul {x y : Float} {m n : Nat} (hx : StandsFor x m) (hy : StandsFor y n) :
    RoundsTo (m * n) (x * y) := by
  obtain ⟨s, e, ⟨⟨hspos, hs⟩, hslower, hsupper⟩, he, he', hm⟩ := hx
  obtain ⟨r, f, ⟨⟨hrpos, hr⟩, hrlower, hrupper⟩, hf, hf', hn⟩ := hy
  have hprod : x * y = Float.ofModel (Float.Model.pack
      (roundWithAccuracy Format.binary64 .positive (s * r) (e + f) .exact)) := by
    show Float.ofModel (Float.Model.pack
      (UnpackedFloat.mul Format.binary64 x.toModel.unpack y.toModel.unpack)) = _
    rw [hs, hr]
    rfl
  have hlower : 104 ≤ (s * r).log2 := by
    refine (Nat.le_log2 (Nat.mul_pos hspos hrpos).ne').mpr ?_
    calc 2 ^ 104 = twoPow 52 * twoPow 52 := by decide +kernel
      _ ≤ s * r := Nat.mul_le_mul hslower hrlower
  have hupper : (s * r).log2 < 106 := by
    refine (Nat.log2_lt (Nat.mul_pos hspos hrpos).ne').mpr ?_
    calc s * r < twoPow 53 * twoPow 53 := Nat.mul_lt_mul'' hsupper hrupper
      _ = 2 ^ 106 := by decide +kernel
  have hnumber : (m : ℚ) * n = (s * r : Nat) * 2 ^ (e + f) := by
    rw [hm, hn, zpow_add₀ (by norm_num), Nat.cast_mul]
    ring
  rw [hnumber]
  exact roundsTo_of_round hprod (by omega) (by omega) (by omega) rfl

/-- The remainder of a division decides the bits that are remembered. -/
theorem approximates_div (a : Nat) {n : Nat} (hn : 0 < n) :
    Approximates (ExtendedMantissa.ofMantissaAndAccuracy (a / n) (accuracyOfFraction (a % n) n))
      (a / n) := by
  have hn' : (0 : ℚ) < n := Nat.cast_pos.mpr hn
  have hsplit : (a : ℚ) / n = (a / n : Nat) + (a % n : Nat) / n := by
    have hdiv : (n : ℚ) * (a / n : Nat) + (a % n : Nat) = a := by exact_mod_cast Nat.div_add_mod a n
    rw [← hdiv]
    field_simp
  have hless : ((a % n : Nat) : ℚ) < n := by exact_mod_cast Nat.mod_lt a hn
  rw [hsplit]
  unfold accuracyOfFraction
  split
  · next hzero =>
    rw [hzero, Nat.cast_zero, zero_div, add_zero]
    rfl
  · next hzero =>
    have hpos : (0 : ℚ) < (a % n : Nat) := Nat.cast_pos.mpr (Nat.pos_of_ne_zero hzero)
    have hfraction : 0 < ((a % n : Nat) : ℚ) / n := div_pos hpos hn'
    have hwhole : ((a % n : Nat) : ℚ) / n < 1 := (div_lt_one hn').mpr hless
    have htwice : ((2 * (a % n) : Nat) : ℚ) / n = 2 * (((a % n : Nat) : ℚ) / n) := by
      rw [Nat.cast_mul, mul_div_assoc]
      rfl
    rcases Nat.lt_trichotomy (2 * (a % n)) n with hlt | heq | hgt
    · have hhalf : ((2 * (a % n) : Nat) : ℚ) / n < 1 := (div_lt_one hn').mpr (Nat.cast_lt.mpr hlt)
      rw [htwice] at hhalf
      rw [Nat.compare_eq_lt.mpr hlt]
      change ((a / n : Nat) : ℚ) < _ ∧ _ < ((a / n : Nat) : ℚ) + 1 / 2
      exact ⟨by linarith, by linarith⟩
    · have hhalf : ((2 * (a % n) : Nat) : ℚ) / n = 1 := by rw [heq, div_self hn'.ne']
      rw [htwice] at hhalf
      rw [Nat.compare_eq_eq.mpr heq]
      change _ = ((a / n : Nat) : ℚ) + 1 / 2
      linarith
    · have hhalf : 1 < ((2 * (a % n) : Nat) : ℚ) / n := (one_lt_div hn').mpr (Nat.cast_lt.mpr hgt)
      rw [htwice] at hhalf
      rw [Nat.compare_eq_gt.mpr hgt]
      change ((a / n : Nat) : ℚ) + 1 / 2 < _ ∧ _ < ((a / n : Nat) : ℚ) + 1
      exact ⟨by linarith, by linarith⟩

/-- The dividend gets 53 more bits, so that the quotient has at least as many as a significand. -/
theorem divCore_eq {s r : Nat} {e f : ℤ} (hs : s.log2 = 52) (hr : r.log2 = 52)
    (hlow : -1000 ≤ e - f) :
    divCore Format.binary64 s e r f =
      (s * 2 ^ 53 / r, e - f - 53, accuracyOfFraction (s * 2 ^ 53 % r) r) := by
  have htarget : min (e - f) (Format.binary64.targetExponent
      (totalExponent s e - totalExponent r f)) = e - f - 53 := by
    show min (e - f) (max ((s.log2 : ℤ) + 1 + e - ((r.log2 : ℤ) + 1 + f) - (53 : Nat))
      (3 - 2 ^ 10 - (53 : Nat))) = _
    omega
  have hshift : (e - f - (e - f - 53)).toNat = 53 := by omega
  unfold divCore
  dsimp only
  rw [htarget, hshift, Nat.shiftLeft_eq]

/-- Quotients are rounded once. -/
theorem StandsFor.div {x y : Float} {m n : Nat} (hx : StandsFor x m) (hy : StandsFor y n) :
    RoundsTo (m / n) (x / y) := by
  obtain ⟨s, e, ⟨⟨hspos, hs⟩, hslower, hsupper⟩, he, he', hm⟩ := hx
  obtain ⟨r, f, ⟨⟨hrpos, hr⟩, hrlower, hrupper⟩, hf, hf', hn⟩ := hy
  change 2 ^ 52 ≤ s at hslower
  change s < 2 ^ 53 at hsupper
  change 2 ^ 52 ≤ r at hrlower
  change r < 2 ^ 53 at hrupper
  have hslog : s.log2 = 52 := (Nat.log2_eq_iff hspos.ne').mpr ⟨hslower, hsupper⟩
  have hrlog : r.log2 = 52 := (Nat.log2_eq_iff hrpos.ne').mpr ⟨hrlower, hrupper⟩
  have hquot : x / y = Float.ofModel (Float.Model.pack (roundWithAccuracy Format.binary64 .positive
      (s * 2 ^ 53 / r) (e - f - 53) (accuracyOfFraction (s * 2 ^ 53 % r) r))) := by
    show Float.ofModel (Float.Model.pack
      (UnpackedFloat.div Format.binary64 x.toModel.unpack y.toModel.unpack)) = _
    rw [hs, hr]
    show Float.ofModel (Float.Model.pack (roundWithAccuracy Format.binary64 .positive
      (divCore Format.binary64 s e r f).1 (divCore Format.binary64 s e r f).2.1
      (divCore Format.binary64 s e r f).2.2)) = _
    rw [divCore_eq hslog hrlog (by omega)]
  have hlower : 2 ^ 52 ≤ s * 2 ^ 53 / r := by
    rw [Nat.le_div_iff_mul_le hrpos]
    omega
  have hupper : s * 2 ^ 53 / r < 2 ^ 54 := by
    rw [Nat.div_lt_iff_lt_mul hrpos]
    omega
  have hpos : s * 2 ^ 53 / r ≠ 0 := by omega
  have hlow : 52 ≤ (s * 2 ^ 53 / r).log2 := (Nat.le_log2 hpos).mpr hlower
  have hhigh : (s * 2 ^ 53 / r).log2 < 54 := (Nat.log2_lt hpos).mpr hupper
  have hnumber : (m : ℚ) / n = ((s * 2 ^ 53 : Nat) : ℚ) / r * 2 ^ (e - f - 53) := by
    rw [hm, hn, zpow_sub₀ (by norm_num), zpow_sub₀ (by norm_num), Nat.cast_mul]
    push_cast
    field_simp
  rw [hnumber]
  exact roundsTo_of_round hquot hlow (by omega) (by omega) (approximates_div _ hrpos)

/-! ## Exact results -/

/-- Whole numbers of quarters above the lower end of an interval. -/
theorem BinaryParts.le_of_low_le {p : BinaryParts} (hpos : 0 < p.significand) {n : Nat}
    (h : (RoundingInterval.ofParts p).low ≤ n * 2 ^ (p.exponent - 2)) :
    4 * p.significand ≤ n + p.lowerQuarters := by
  have hunit : (0 : ℚ) < 2 ^ (p.exponent - 2) := zpow_pos (by norm_num) _
  rw [low_ofParts hpos] at h
  exact_mod_cast sub_le_iff_le_add.mp (le_of_mul_le_mul_right h hunit)

/-- Whole numbers of quarters below the upper end of an interval. -/
theorem BinaryParts.le_of_le_high {p : BinaryParts} {n : Nat}
    (h : n * 2 ^ (p.exponent - 2) ≤ (RoundingInterval.ofParts p).high) :
    n ≤ 4 * p.significand + 2 := by
  have hunit : (0 : ℚ) < 2 ^ (p.exponent - 2) := zpow_pos (by norm_num) _
  rw [high_ofParts] at h
  exact_mod_cast le_of_mul_le_mul_right h hunit

/-- Units are made of smaller ones. -/
theorem mul_two_zpow (s count : Nat) (g : ℤ) :
    (s : ℚ) * 2 ^ (g + count) = (s * 2 ^ count : Nat) * 2 ^ g := by
  rw [zpow_add₀ (by norm_num), zpow_natCast]
  push_cast
  ring

theorem mul_two_zpow_le (s : Nat) {f g : ℤ} (h : f ≤ g) : (s : ℚ) * 2 ^ f ≤ s * 2 ^ g :=
  mul_le_mul_of_nonneg_left (zpow_le_zpow_right₀ (by norm_num) h) (Nat.cast_nonneg s)

/-- A double is the only one whose interval holds it. -/
theorem BinaryParts.eq_of_holds {p : BinaryParts} {s : Nat} {f : ℤ}
    (hlower : twoPow 52 ≤ p.significand) (hupper : p.significand < twoPow 53)
    (hslower : twoPow 52 ≤ s) (hsupper : s < twoPow 53) (hf : -1074 ≤ f)
    (h : (RoundingInterval.ofParts p).Holds (s * (2 : ℚ) ^ f)) :
    s = p.significand ∧ f = p.exponent := by
  have hpos : 0 < p.significand := Nat.lt_of_lt_of_le (twoPow_pos 52) hlower
  have hquarters := p.lowerQuarters_bounds
  obtain ⟨hlow, hhigh⟩ := h.bounds
  change 2 ^ 52 ≤ p.significand at hlower
  change p.significand < 2 ^ 53 at hupper
  change 2 ^ 52 ≤ s at hslower
  change s < 2 ^ 53 at hsupper
  rcases Int.lt_trichotomy f p.exponent with hless | hsame | hmore
  · -- the last significand of the units below is too small
    exfalso
    have hunits : f ≤ p.exponent - 2 + (1 : Nat) := by omega
    have hle := hlow.trans (mul_two_zpow_le s hunits)
    rw [mul_two_zpow] at hle
    have hcompare := le_of_low_le hpos hle
    by_cases hfirst : p.significand = 2 ^ 52
    · have hquarter : p.lowerQuarters = 1 := if_pos ⟨hfirst, by omega⟩
      omega
    · omega
  · have hunits : f = p.exponent - 2 + (2 : Nat) := by omega
    rw [hunits, mul_two_zpow] at hlow hhigh
    have hcompare := le_of_low_le hpos hlow
    have hcompare' := le_of_le_high hhigh
    exact ⟨by omega, hsame⟩
  · -- the first significand of the units above is too large
    exfalso
    have hunits : p.exponent - 2 + (3 : Nat) ≤ f := by omega
    have hge := (mul_two_zpow_le s hunits).trans hhigh
    rw [mul_two_zpow] at hge
    have hcompare := le_of_le_high hge
    omega

/-- A whole number that some double stands for is kept by rounding. -/
theorem RoundsTo.standsFor {x y : Float} {n : Nat} (h : RoundsTo n x) (hy : StandsFor y n) :
    StandsFor x n := by
  obtain ⟨s, f, hparts, -, -, hholds⟩ := h
  obtain ⟨r, g, hy, hg, hg', hn⟩ := hy
  have hholds' := hholds false
  rw [hn] at hholds'
  obtain ⟨rfl, rfl⟩ := BinaryParts.eq_of_holds (p := ⟨false, s, f⟩) hparts.lower hparts.upper
    hy.lower hy.upper (by omega) hholds'
  exact ⟨r, g, hparts, hg, hg', hn⟩

/-- Rounding keeps a significand with the right number of bits. -/
theorem roundWithAccuracy_full {r : Nat} {f : ℤ} (hlower : 2 ^ 52 ≤ r) (hupper : r < 2 ^ 53)
    (hf : -1074 ≤ f) : roundWithAccuracy Format.binary64 .positive r f .exact =
      .finite .positive r f (Nat.lt_of_lt_of_le (Nat.two_pow_pos 52) hlower) :=
  roundWithAccuracy_eq .positive (shiftToTargetExponent_full hlower hupper hf)
    (shiftToTargetExponent_full hlower hupper hf) (Nat.lt_of_lt_of_le (Nat.two_pow_pos 52) hlower)

/-- Whole numbers of at most 53 bits are doubles. -/
theorem standsFor_toFloat {n : Nat} (hpos : 0 < n) (hn : n < 2 ^ 53) :
    StandsFor n.toUInt64.toFloat n := by
  have hlog : n.log2 < 53 := (Nat.log2_lt hpos.ne').mpr hn
  obtain ⟨count, hcount⟩ : ∃ count, n.log2 + count = 52 := ⟨52 - n.log2, by omega⟩
  have hlower : 2 ^ 52 ≤ n * 2 ^ count := by
    rw [← hcount, Nat.pow_add]
    exact Nat.mul_le_mul_right _ (Nat.log2_self_le hpos.ne')
  have hupper : n * 2 ^ count < 2 ^ 53 := by
    have hbits : 53 = n.log2 + 1 + count := by omega
    rw [hbits, Nat.pow_add]
    exact Nat.mul_lt_mul_of_pos_right Nat.lt_log2_self (Nat.two_pow_pos _)
  have hround : UnpackedFloat.round Format.binary64 .positive n 0 =
      roundWithAccuracy Format.binary64 .positive (n * 2 ^ count) (-count) .exact := by
    have hshift :
        ((0 : ℤ) - Format.binary64.targetExponent (totalExponent n 0)).toNat = count := by
      rw [targetExponent_eq]
      omega
    unfold UnpackedFloat.round decreaseExponent
    dsimp only
    rw [hshift, Nat.shiftLeft_eq, Int.zero_sub]
  have hdouble : n.toUInt64.toFloat =
      Float.ofModel (Float.Model.pack (UnpackedFloat.round Format.binary64 .positive n 0)) := by
    have hvalue : n.toUInt64.toNat = n := Nat.mod_eq_of_lt (by omega)
    show Float.ofModel (Float.Model.pack
      (UnpackedFloat.normalize Format.binary64 (n.toUInt64.toNat : ℤ) 0 .positive)) = _
    rw [hvalue]
    unfold UnpackedFloat.normalize
    have hcompare : compare (n : ℤ) 0 = .gt := by
      rw [Int.compare_eq_gt]
      exact_mod_cast hpos
    rw [hcompare]
    rfl
  refine ⟨n * 2 ^ count, -count, ⟨⟨Nat.lt_of_lt_of_le (Nat.two_pow_pos 52) hlower, ?_⟩, hlower,
    hupper⟩, by omega, by omega, ?_⟩
  · rw [hdouble, hround, roundWithAccuracy_full hlower hupper (by omega)]
    exact unpack_pack hlower hupper (by omega) (by omega)
  · rw [Nat.cast_mul, zpow_neg, zpow_natCast, Nat.cast_pow]
    field_simp
    rfl

/-- Whether a double stands for a whole number, as far as that can be computed. -/
def standsFor (x : Float) (n : Nat) : Bool :=
  match x.toModel.unpack with
  | .finite .positive s f _ =>
    decide (twoPow 52 ≤ s) && decide (s < twoPow 53) && decide (-52 ≤ f) && decide (f ≤ 21) &&
      decide (n * twoPow (-f).toNat = s * twoPow f.toNat)
  | _ => false

theorem standsFor_of_decide {x : Float} {n : Nat} (h : standsFor x n = true) : StandsFor x n := by
  unfold standsFor at h
  split at h
  · next s f hpos hunpack =>
    simp only [Bool.and_eq_true, decide_eq_true_eq] at h
    obtain ⟨⟨⟨⟨hlower, hupper⟩, hf⟩, hf'⟩, hvalue⟩ := h
    refine ⟨s, f, ⟨⟨hpos, hunpack⟩, hlower, hupper⟩, hf, hf', ?_⟩
    have hvalue' : (n : ℚ) * twoPow (-f).toNat = s * twoPow f.toNat := by exact_mod_cast hvalue
    have hscale : (2 : ℚ) ^ f = twoPow f.toNat / twoPow (-f).toNat := by
      rw [twoPow_cast, twoPow_cast, ← zpow_sub₀ (by norm_num)]
      congr 1
      omega
    have hunit : (twoPow (-f).toNat : ℚ) ≠ 0 := Nat.cast_ne_zero.mpr (twoPow_pos _).ne'
    rw [hscale, ← mul_div_assoc, ← hvalue', mul_div_cancel_right₀ _ hunit]
  · contradiction

/-- The powers of ten that doubles stand for. -/
theorem standsFor_exactlyRepresentablePowersOfTen {n : Nat} (hn : n ≤ 22) :
    StandsFor (getElem Float.exactlyRepresentablePowersOfTen n (Nat.lt_succ_of_le hn))
      (tenPow n) := by
  have hall : ∀ k : Fin 23,
      standsFor (getElem Float.exactlyRepresentablePowersOfTen k.val k.isLt) (tenPow k) = true := by
    decide +kernel
  exact standsFor_of_decide (hall ⟨n, Nat.lt_succ_of_le hn⟩)

/-- A whole number with a power of ten is first made a double and then multiplied. -/
theorem ofScientific_eq {m e : Nat} (hm : m < 2 ^ 53) (he : e ≤ 22) :
    Float.ofScientific m false e = m.toUInt64.toFloat *
      getElem Float.exactlyRepresentablePowersOfTen e (Nat.lt_succ_of_le he) :=
  dif_pos ⟨hm, he⟩

/-- Whole numbers of at most 53 bits are written exactly. -/
theorem standsFor_ofScientific {n : Nat} (hpos : 0 < n) (hn : n < 2 ^ 53) :
    StandsFor (Float.ofScientific n false 0) n := by
  have hdouble := standsFor_toFloat hpos hn
  have hproduct := hdouble.mul (standsFor_exactlyRepresentablePowersOfTen (Nat.zero_le 22))
  have hone : (n : ℚ) * (tenPow 0 : Nat) = n := by
    rw [tenPow_cast, Nat.cast_zero, zpow_zero, mul_one]
  rw [← ofScientific_eq hn (Nat.zero_le 22), hone] at hproduct
  exact hproduct.standsFor hdouble

/-- Powers of ten are exact up to `10 ^ 22`. -/
theorem standsFor_powerOfTen {n : Nat} (hn : n ≤ 22) :
    StandsFor (Collected.powerOfTen n) (tenPow n) := by
  have hpower := standsFor_exactlyRepresentablePowersOfTen hn
  have hproduct := (standsFor_toFloat (n := 1) (by decide) (by decide)).mul hpower
  rw [← ofScientific_eq (by decide) hn, Nat.cast_one, one_mul] at hproduct
  exact hproduct.standsFor hpower

/-! ## Zero and signs -/

/-- The double zero, without a minus sign. -/
def IsZero (x : Float) : Prop := x.toModel.unpack = .zero .positive

theorem isZero_ofScientific : IsZero (Float.ofScientific 0 false 0) := rfl

/-- Zeros are kept by packing them. -/
theorem unpack_pack_zero (sign : Sign) : UnpackedFloat.unpack Format.binary64
    (UnpackedFloat.pack Format.binary64 (.zero sign)) = .zero sign := by
  cases sign <;> rfl

theorem IsZero.mul {x y : Float} {n : Nat} (hx : IsZero x) (hy : StandsFor y n) :
    IsZero (x * y) := by
  obtain ⟨s, f, ⟨⟨hpos, hs⟩, -, -⟩, -⟩ := hy
  show (Float.Model.pack
    (UnpackedFloat.mul Format.binary64 x.toModel.unpack y.toModel.unpack)).unpack = _
  rw [hx, hs]
  exact unpack_pack_zero .positive

theorem IsZero.div {x y : Float} {n : Nat} (hx : IsZero x) (hy : StandsFor y n) :
    IsZero (x / y) := by
  obtain ⟨s, f, ⟨⟨hpos, hs⟩, -, -⟩, -⟩ := hy
  show (Float.Model.pack
    (UnpackedFloat.div Format.binary64 x.toModel.unpack y.toModel.unpack)).unpack = _
  rw [hx, hs]
  exact unpack_pack_zero .positive

/-- The parts of zero, with either sign. -/
theorem IsZero.ofFloat? {x : Float} (h : IsZero x) (negative : Bool) :
    BinaryParts.ofFloat? (if negative then -x else x) = some ⟨negative, 0, -1074⟩ := by
  cases negative
  · rw [if_neg Bool.false_ne_true, BinaryParts.ofFloat?_eq, h]
    rfl
  · rw [if_pos rfl, BinaryParts.ofFloat?_eq]
    show partsOf (Float.Model.pack (UnpackedFloat.neg x.toModel.unpack)).unpack = _
    rw [h]
    rfl

/-- The parts of a double with all bits of its significand, with either sign. -/
theorem HasParts.ofFloat? {x : Float} {s : Nat} {f : ℤ} (h : HasParts x s f) (hf : -1074 ≤ f)
    (hf' : f ≤ 971) (negative : Bool) :
    BinaryParts.ofFloat? (if negative then -x else x) = some ⟨negative, s, f⟩ := by
  obtain ⟨hpos, hs⟩ := h.unpack
  cases negative
  · rw [if_neg Bool.false_ne_true, BinaryParts.ofFloat?_eq, hs]
    rfl
  · rw [if_pos rfl, BinaryParts.ofFloat?_eq]
    show partsOf (Float.Model.pack (UnpackedFloat.neg x.toModel.unpack)).unpack = _
    rw [hs]
    show partsOf (UnpackedFloat.unpack Format.binary64
      (UnpackedFloat.pack Format.binary64 (.finite .negative s f hpos))) = _
    rw [unpack_pack h.lower h.upper hf hf']
    rfl

theorem IsZero.isInf {x : Float} (h : IsZero x) : x.isInf = false := by
  show x.toModel.unpack.isInf = false
  rw [h]
  rfl

theorem RoundsTo.isInf {x : Float} {q : ℚ} (h : RoundsTo q x) : x.isInf = false := by
  obtain ⟨s, f, ⟨⟨hpos, hs⟩, -, -⟩, -⟩ := h
  show x.toModel.unpack.isInf = false
  rw [hs]
  rfl

end Tariff
