/-
# Decimals from the texts of doubles

The shortest digits of a double are written with a point or with an exponent. Either way the text is
read as the decimal that these digits stand for, if there is one.

* `DecimalDigits.exists_writes_plain_of_nonneg`, `DecimalDigits.exists_writes_plain_of_neg` and
  `DecimalDigits.exists_writes_leading` : what the texts write;
* `DecimalDigits.leading_bounds` : exponents of representable numbers;
* `exists_ofText_numberText` : the text of a double.
-/
import Mathlib.Algebra.Order.Field.Power
import Mathlib.Tactic.Linarith
import Tariff.Binary.Shortest
import Tariff.Proofs.Decimal.Scientific

namespace Tariff

open Decimal (Representable Writes movedPoint)

theorem tenPow_cast (n : Nat) : ((tenPow n : Nat) : ℚ) = (10 : ℚ) ^ (n : ℤ) := by
  show ((10 ^ n : Nat) : ℚ) = _
  rw [Nat.cast_pow, zpow_natCast]
  rfl

namespace DecimalDigits

/-- The number that digits with an exponent stand for. -/
def toRat (d : DecimalDigits) : ℚ := d.digits * (10 : ℚ) ^ d.exponent

/-! ## Texts without an exponent -/

/-- Digits are filled up with zeros to the point; behind it stands a zero. -/
theorem exists_writes_plain_of_nonneg {d : DecimalDigits} (h : 0 ≤ d.exponent) :
    ∃ whole fraction, Writes (d.plain ++ ".0").toList whole fraction ∧
      numeralValue whole fraction = d.toRat := by
  let whole := Nat.toDigits 10 d.digits ++ List.replicate d.exponent.toNat '0'
  have hdigits : ∀ c ∈ whole ++ ['0'], c.isDigit = true := by
    intro c hc
    rcases List.mem_append.mp hc with hwhole | hzero
    · rcases List.mem_append.mp hwhole with hdigit | hzeros
      · exact Nat.isDigit_of_mem_toDigits (by decide) (by decide) hdigit
      · rw [List.eq_of_mem_replicate hzeros]
        rfl
    · rw [List.mem_singleton.mp hzero]
      rfl
  have hlayout : (d.plain ++ ".0").toList = whole ++ '.' :: ['0'] := by
    rw [String.toList_append, plain, if_pos h, String.toList_ofList]
    rfl
  refine ⟨whole, ['0'], ⟨hdigits, by simp, Or.inl hlayout⟩, ?_⟩
  have hvalue : digitsValue (whole ++ ['0']) = d.digits * tenPow d.exponent.toNat * tenPow 1 := by
    have hzeros : digitsValue (List.replicate d.exponent.toNat '0') = 0 := by
      rw [← List.append_nil (List.replicate _ _), digitsValue_zeros_append]
      rfl
    rw [digitsValue_append, digitsValue_append, digitsValue_toDigits, hzeros,
      List.length_replicate]
    rfl
  rw [numeralValue, hvalue, Nat.cast_mul, List.length_singleton,
    mul_div_cancel_right₀ _ (tenPow_cast_ne_zero 1), Nat.cast_mul, tenPow_cast, toRat,
    Int.toNat_of_nonneg h]

/-- Digits are filled up with zeros in front, so that one stands before the point. -/
theorem exists_writes_plain_of_neg {d : DecimalDigits} (h : d.exponent < 0) :
    ∃ whole fraction, Writes d.plain.toList whole fraction ∧
      numeralValue whole fraction = d.toRat := by
  let count := (-d.exponent).toNat
  let digits := Nat.toDigits 10 d.digits
  let padded := List.replicate (count + 1 - digits.length) '0' ++ digits
  let whole := padded.take (padded.length - count)
  let fraction := padded.drop (padded.length - count)
  have hsplit : whole ++ fraction = padded := List.take_append_drop _ _
  have hlength : count + 1 ≤ padded.length := by
    rw [List.length_append, List.length_replicate]
    omega
  have hfraction : fraction.length = count := by
    rw [List.length_drop]
    omega
  have hdigits : ∀ c ∈ padded, c.isDigit = true := by
    intro c hc
    rcases List.mem_append.mp hc with hzeros | hdigit
    · rw [List.eq_of_mem_replicate hzeros]
      rfl
    · exact Nat.isDigit_of_mem_toDigits (by decide) (by decide) hdigit
  have hlayout : d.plain.toList = whole ++ '.' :: fraction := by
    rw [plain, if_neg (by omega)]
    exact String.toList_ofList
  refine ⟨whole, fraction, ⟨hsplit ▸ hdigits, ?_, Or.inl hlayout⟩, ?_⟩
  · rw [hsplit]
    exact List.ne_nil_of_length_pos (by omega)
  · rw [numeralValue, hsplit, digitsValue_zeros_append, digitsValue_toDigits, hfraction,
      tenPow_cast, toRat, div_eq_mul_inv, ← zpow_neg]
    congr 2
    omega

/-! ## Texts with an exponent -/

/-- The digits with a point behind the first one, and the power of ten that is left. -/
theorem exists_writes_leading (d : DecimalDigits) :
    ∃ cs whole fraction, Writes cs whole fraction ∧
      cs = (Nat.toDigits 10 d.digits).take 1 ++
        (if ((Nat.toDigits 10 d.digits).drop 1).isEmpty then []
          else '.' :: (Nat.toDigits 10 d.digits).drop 1) ∧
      numeralValue whole fraction = d.digits / tenPow ((Nat.toDigits 10 d.digits).length - 1) := by
  let digits := Nat.toDigits 10 d.digits
  have hsplit : digits.take 1 ++ digits.drop 1 = digits := List.take_append_drop _ _
  have hdigits : ∀ c ∈ digits.take 1 ++ digits.drop 1, c.isDigit = true := by
    rw [hsplit]
    exact fun c hc => Nat.isDigit_of_mem_toDigits (by decide) (by decide) hc
  have hnonempty : digits.take 1 ++ digits.drop 1 ≠ [] := by
    rw [hsplit]
    exact Nat.toDigits_ne_nil
  refine ⟨_, digits.take 1, digits.drop 1, ⟨hdigits, hnonempty, ?_⟩, rfl, ?_⟩
  · by_cases hempty : (digits.drop 1).isEmpty = true
    · rw [if_pos hempty, List.append_nil]
      exact Or.inr ⟨rfl, List.isEmpty_iff.mp hempty⟩
    · rw [if_neg hempty]
      exact Or.inl rfl
  · rw [numeralValue, hsplit, digitsValue_toDigits, List.length_drop]

/-- A number with its digits and the place of the first one. -/
theorem toRat_eq_leading (d : DecimalDigits) :
    d.toRat = d.digits / tenPow ((Nat.toDigits 10 d.digits).length - 1) *
      (10 : ℚ) ^ (d.exponent + (Nat.toDigits 10 d.digits).length - 1) := by
  have hlength : 0 < (Nat.toDigits 10 d.digits).length := Nat.length_toDigits_pos
  have hexponent : d.exponent + (Nat.toDigits 10 d.digits).length - 1 =
      (((Nat.toDigits 10 d.digits).length - 1 : Nat) : ℤ) + d.exponent := by omega
  rw [toRat, hexponent, zpow_add₀ (by norm_num), ← tenPow_cast, ← mul_assoc,
    div_mul_cancel₀ _ (tenPow_cast_ne_zero _)]

/-- The digits of a positive number, with a point behind the first one, are at least one and less
than ten. -/
theorem leading_digits_bounds {n : Nat} (hpos : 0 < n) :
    (1 : ℚ) ≤ n / tenPow ((Nat.toDigits 10 n).length - 1) ∧
      (n : ℚ) / tenPow ((Nat.toDigits 10 n).length - 1) < 10 := by
  obtain ⟨count, hcount⟩ : ∃ count, (Nat.toDigits 10 n).length = count + 1 :=
    Nat.exists_eq_add_one.mpr Nat.length_toDigits_pos
  rw [hcount, Nat.add_sub_cancel, le_div_iff₀ (tenPow_cast_pos count), one_mul,
    div_lt_iff₀ (tenPow_cast_pos count)]
  constructor
  · have hle : tenPow count ≤ n := by
      rcases Nat.eq_zero_or_pos count with rfl | hcountpos
      · exact hpos
      · by_contra hlt
        have hshort := (Nat.length_toDigits_le_iff (by decide) hcountpos).mpr (Nat.not_le.mp hlt)
        omega
    exact_mod_cast hle
  · have hlt : n < tenPow (count + 1) :=
      (Nat.length_toDigits_le_iff (by decide) (Nat.succ_pos count)).mp (Nat.le_of_eq hcount)
    rw [tenPow_succ, Nat.mul_comm] at hlt
    exact_mod_cast hlt

end DecimalDigits

/-! ## Exponents of representable numbers -/

/-- Positive numbers that are representable lie within 28 digits behind the point and 29 before
it. -/
theorem Decimal.Representable.bounds {q : ℚ} (h : Representable q) (hpos : 0 < q) :
    (10 : ℚ) ^ (-28 : ℤ) ≤ q ∧ q < (10 : ℚ) ^ (29 : ℤ) := by
  obtain ⟨a, rfl⟩ := h
  have hmagnitude : a.toRat = a.magnitude := by
    rw [Decimal.toRat_eq_magnitude] at hpos ⊢
    split at hpos
    · have hnonneg := a.magnitude_nonneg
      linarith
    · next hsign => rw [if_neg hsign]
  rw [hmagnitude, Decimal.magnitude] at hpos ⊢
  have hunit := tenPow_cast_pos a.scale
  have hone : (1 : ℚ) ≤ a.coefficient := by
    have hcoefficient : 0 < (a.coefficient : ℚ) := by
      rcases (div_pos_iff.mp hpos) with h | h
      · exact h.1
      · linarith [h.2]
    exact_mod_cast hcoefficient
  constructor
  · have hscale : (tenPow a.scale : ℚ) ≤ tenPow 28 := by
      exact_mod_cast (Nat.pow_le_pow_right (by decide) a.scale_le : 10 ^ a.scale ≤ 10 ^ 28)
    show (10 : ℚ) ^ (-((28 : Nat) : ℤ)) ≤ _
    rw [zpow_neg, ← tenPow_cast, le_div_iff₀ hunit, inv_mul_le_iff₀ (tenPow_cast_pos 28)]
    calc (tenPow a.scale : ℚ) ≤ tenPow 28 := hscale
      _ = tenPow 28 * 1 := (mul_one _).symm
      _ ≤ tenPow 28 * a.coefficient := mul_le_mul_of_nonneg_left hone (tenPow_cast_pos 28).le
  · have hunit' : (1 : ℚ) ≤ tenPow a.scale := by exact_mod_cast tenPow_pos a.scale
    have hlimit : (a.coefficient : ℚ) < (10 : ℚ) ^ (29 : ℤ) := by
      have hlt : a.coefficient < 10 ^ 29 := Nat.lt_trans a.coefficient_lt (by decide)
      exact_mod_cast hlt
    rw [div_lt_iff₀ hunit]
    calc (a.coefficient : ℚ) < (10 : ℚ) ^ (29 : ℤ) := hlimit
      _ = (10 : ℚ) ^ (29 : ℤ) * 1 := (mul_one _).symm
      _ ≤ (10 : ℚ) ^ (29 : ℤ) * tenPow a.scale :=
        mul_le_mul_of_nonneg_left hunit' (by positivity)

/-- The first digit of a positive number that is representable. -/
theorem DecimalDigits.leading_bounds {d : DecimalDigits} (hpos : 0 < d.digits)
    (h : Representable d.toRat) :
    -28 ≤ d.exponent + (Nat.toDigits 10 d.digits).length - 1 ∧
      d.exponent + (Nat.toDigits 10 d.digits).length - 1 ≤ 28 := by
  obtain ⟨hone, hten⟩ := leading_digits_bounds hpos
  rw [toRat_eq_leading] at h
  let leading := d.exponent + (Nat.toDigits 10 d.digits).length - 1
  have hpower : (0 : ℚ) < 10 ^ leading := zpow_pos (by norm_num) _
  obtain ⟨hlow, hhigh⟩ := h.bounds (mul_pos (by linarith) hpower)
  constructor
  · have hlt : (10 : ℚ) ^ (-28 : ℤ) < 10 ^ (leading + 1) := by
      rw [zpow_add_one₀ (by norm_num)]
      calc (10 : ℚ) ^ (-28 : ℤ) ≤ _ := hlow
        _ < 10 * 10 ^ leading := mul_lt_mul_of_pos_right hten hpower
        _ = 10 ^ leading * 10 := mul_comm _ _
    have := (zpow_lt_zpow_iff_right₀ (by norm_num : (1 : ℚ) < 10)).mp hlt
    omega
  · have hlt : (10 : ℚ) ^ leading < 10 ^ (29 : ℤ) := by
      calc (10 : ℚ) ^ leading = 1 * 10 ^ leading := (one_mul _).symm
        _ ≤ _ := mul_le_mul_of_nonneg_right hone (le_of_lt hpower)
        _ < 10 ^ (29 : ℤ) := hhigh
    have := (zpow_lt_zpow_iff_right₀ (by norm_num : (1 : ℚ) < 10)).mp hlt
    omega

/-! ## Whole texts -/

/-- A text without an exponent is read with its sign. -/
theorem Decimal.Writes.exists_ofText_signed {text : String} {whole fraction : List Char}
    (htext : Writes text.toList whole fraction) (minus : Bool)
    (h : Representable (numeralValue whole fraction)) :
    ∃ a, Decimal.ofText ((if minus then "-" else "") ++ text) = .ok a ∧
      a.toRat = if minus then -numeralValue whole fraction else numeralValue whole fraction := by
  cases minus
  · obtain ⟨a, ha, hrat⟩ := htext.exists_readNumeral h
    refine ⟨a, ?_, hrat⟩
    have hlist : ((if false then "-" else "") ++ text).toList = text.toList := by
      rw [String.toList_append]
      rfl
    rw [Decimal.ofText, hlist, ha]
  · obtain ⟨a, ha, hrat⟩ := htext.exists_readNumeral_minus h
    refine ⟨a, ?_, hrat⟩
    have hlist : ((if true then "-" else "") ++ text).toList = '-' :: text.toList := by
      rw [String.toList_append]
      rfl
    rw [Decimal.ofText, hlist, ha]

/-- A text with an exponent is read with its sign. -/
theorem DecimalDigits.exists_ofText_scientific {d : DecimalDigits} (hpos : 0 < d.digits)
    (hshort : d.digits < tenPow 17) (minus : Bool) (h : Representable d.toRat) :
    ∃ a, Decimal.ofText ((if minus then "-" else "") ++ d.scientific) = .ok a ∧
      a.toRat = if minus then -d.toRat else d.toRat := by
  obtain ⟨hlow, hhigh⟩ := leading_bounds hpos h
  obtain ⟨cs, whole, fraction, hwrites, hcs, hvalue⟩ := d.exists_writes_leading
  have hlength : (Nat.toDigits 10 d.digits).length ≤ 17 :=
    (Nat.length_toDigits_le_iff (by decide) (by decide)).mpr hshort
  have hbase : Representable (numeralValue whole fraction) := by
    have hlimit : ((d.digits : Int)).natAbs < Decimal.limit := by
      rw [Int.natAbs_natCast]
      exact Nat.lt_trans hshort (by decide)
    have hscale : (Nat.toDigits 10 d.digits).length - 1 ≤ Decimal.maxScale := by
      unfold Decimal.maxScale
      omega
    rw [hvalue]
    simpa using Decimal.representable_of_natAbs_lt hscale hlimit
  have hrat := d.toRat_eq_leading
  rw [← hvalue] at hrat
  have htext : d.scientific = String.ofList cs ++ "e" ++
      (if d.exponent + (Nat.toDigits 10 d.digits).length - 1 < 0 then "-" else "+") ++
      toString (d.exponent + (Nat.toDigits 10 d.digits).length - 1).natAbs := by
    rw [hcs]
    rfl
  generalize d.exponent + (Nat.toDigits 10 d.digits).length - 1 = leading at hlow hhigh hrat htext
  have hmoved : movedPoint (numeralValue whole fraction) (decide (leading < 0)) leading.natAbs =
      d.toRat := by
    rw [hrat, movedPoint]
    by_cases hneg : leading < 0
    · have habs : leading = -(leading.natAbs : ℤ) := by omega
      rw [if_pos (decide_eq_true hneg), div_eq_mul_inv, tenPow_cast, ← zpow_neg, ← habs]
    · have habs : (leading.natAbs : ℤ) = leading := by omega
      rw [if_neg (by simpa using hneg), tenPow_cast, habs]
  have hexponent : digitsValue (Nat.toDigits 10 leading.natAbs) = leading.natAbs :=
    digitsValue_toDigits _
  obtain ⟨a, ha, hvalue⟩ := hwrites.exists_ofText_scientific minus (decide (leading < 0))
    (fun c hc => Nat.isDigit_of_mem_toDigits (b := 10) (by decide) (by decide) hc)
    (Nat.toDigits_ne_nil (n := leading.natAbs))
    (by omega) hbase (by rwa [hexponent, hmoved])
  rw [hexponent, hmoved] at hvalue
  refine ⟨a, ?_, hvalue⟩
  rw [← ha]
  congr 1
  apply String.toList_injective
  have hdigits : (toString leading.natAbs).toList = Nat.toDigits 10 leading.natAbs :=
    Nat.toList_repr
  rw [htext, String.toList_ofList]
  simp only [String.toList_append, hdigits, String.toList_ofList]
  cases minus <;> by_cases hneg : leading < 0 <;> simp [hneg]

/-- **Doubles are written so that they are read exactly.** The text of a double is read as the
number that its shortest digits stand for, if a decimal stands for it. -/
theorem exists_ofText_numberText {p : BinaryParts} (hshort : (shortestDigits p).digits < tenPow 17)
    (hzero : (shortestDigits p).digits = 0 → (shortestDigits p).exponent = 0)
    (h : Representable (shortestDigits p).toRat) :
    ∃ a, Decimal.ofText p.numberText = .ok a ∧
      a.toRat = if p.negative then -(shortestDigits p).toRat else (shortestDigits p).toRat := by
  unfold BinaryParts.numberText
  generalize shortestDigits p = d at hshort hzero h
  generalize p.negative = minus
  dsimp only
  by_cases hplace : -5 ≤ d.exponent + (Nat.toDigits 10 d.digits).length - 1 ∧
      d.exponent + (Nat.toDigits 10 d.digits).length - 1 ≤ 15
  · rw [if_pos hplace]
    by_cases hexponent : 0 ≤ d.exponent
    · obtain ⟨whole, fraction, hwrites, hvalue⟩ := d.exists_writes_plain_of_nonneg hexponent
      rw [if_pos hexponent, ← hvalue]
      exact hwrites.exists_ofText_signed minus (hvalue ▸ h)
    · obtain ⟨whole, fraction, hwrites, hvalue⟩ :=
        d.exists_writes_plain_of_neg (Int.not_le.mp hexponent)
      rw [if_neg hexponent, ← hvalue]
      exact hwrites.exists_ofText_signed minus (hvalue ▸ h)
  · have hpos : 0 < d.digits := by
      refine Nat.pos_of_ne_zero fun hdigits => hplace ?_
      rw [hdigits, hzero hdigits, Nat.toDigits_zero]
      decide
    rw [if_neg hplace]
    exact DecimalDigits.exists_ofText_scientific hpos hshort minus h

end Tariff
