/-
# Numerals of any length

A numeral may write more digits than a decimal holds. Digits behind the point are rounded half up
where they do not fit any more; digits before it must fit. So exactly those numerals are refused
that are too large for a decimal after rounding to a whole number.

* `roundAt_rounded` : the digit at which rounding takes place;
* `readDigits_fraction_rounded` : the digits behind the point;
* `readDigits_whole_error` : too many digits before it;
* `Writes.readNumeral_rounded` : a whole numeral, with or without a sign.
-/
import Tariff.Proofs.Decimal.Numeral

namespace Tariff

namespace Decimal

/-- The result of reading the magnitude `q`: it is rounded to the nearest number of as many digits,
unless it is too large. -/
def ReadsRounded (result : Except NumeralFault Decimal) (negative : Bool) (q : ℚ) : Prop :=
  (q + 1 / 2 < limit ∧ ∃ a, result = .ok a ∧ a.negative = negative ∧
    |a.magnitude - q| ≤ 1 / 2 / tenPow a.scale) ∨
  (limit ≤ q + 1 / 2 ∧ ∃ fault, result = .error fault)

/-! ## Rounding -/

/-- The number that continues a decimal by a part of its last place. -/
def continued (a : Decimal) (part : ℚ) : ℚ := (a.coefficient + part) / tenPow a.scale

theorem coefficient_cast_le (a : Decimal) : (a.coefficient : ℚ) ≤ limit - 1 := by
  have hle : a.coefficient + 1 ≤ limit := a.coefficient_lt
  have hcast : ((a.coefficient + 1 : Nat) : ℚ) ≤ (limit : Nat) := Nat.cast_le.mpr hle
  push_cast at hcast ⊢
  linarith

theorem continued_of_scale_eq_zero {a : Decimal} (h : a.scale = 0) (part : ℚ) :
    a.continued part = a.coefficient + part := by
  have hone : tenPow 0 = 1 := rfl
  rw [continued, h, hone, Nat.cast_one, div_one]

/-- What continues a decimal is below the limit, also with a half added, unless all of its places
stand before the point. -/
theorem continued_lt {a : Decimal} {part : ℚ} (hlow : 0 ≤ part) (hhigh : part < 1)
    (h : part < 1 / 2 ∨ a.coefficient + 1 < limit ∨ a.scale ≠ 0) :
    a.continued part + 1 / 2 < limit := by
  have hcoefficient := a.coefficient_cast_le
  by_cases hscale : a.scale = 0
  · rw [continued_of_scale_eq_zero hscale]
    rcases h with hpart | hroom | hpoint
    · push_cast at hcoefficient ⊢
      linarith
    · have hroom' : ((a.coefficient + 1 + 1 : Nat) : ℚ) ≤ (limit : Nat) := Nat.cast_le.mpr hroom
      push_cast at hroom' hcoefficient ⊢
      linarith
    · exact absurd hscale hpoint
  · have hten : (10 : ℚ) ≤ tenPow a.scale := by
      have := ten_le_tenPow hscale
      exact_mod_cast this
    have hnonneg : (0 : ℚ) ≤ a.coefficient := Nat.cast_nonneg _
    have hle : a.continued part ≤ (a.coefficient + part) / 10 :=
      div_le_div_of_nonneg_left (by linarith) (by norm_num) hten
    push_cast at hcoefficient ⊢
    linarith

/-- Raising the last digit rounds up what is at least a half of its place. -/
theorem increment_rounded {a : Decimal} {part : ℚ} (hlow : 1 / 2 ≤ part) (hhigh : part < 1) :
    ReadsRounded a.increment a.negative (a.continued part) := by
  have hunit := tenPow_cast_pos a.scale
  unfold increment
  by_cases hroom : a.coefficient + 1 < limit
  · rw [dif_pos hroom]
    refine Or.inl ⟨continued_lt (by linarith) hhigh (Or.inr (Or.inl hroom)), _, rfl, rfl, ?_⟩
    have hdiff : (magnitude ⟨a.negative, a.coefficient + 1, a.scale, hroom, a.scale_le⟩) -
        a.continued part = (1 - part) / tenPow a.scale := by
      rw [magnitude, continued]
      push_cast
      ring
    rw [hdiff, abs_of_nonneg (div_nonneg (by linarith) hunit.le)]
    exact div_le_div_of_nonneg_right (by linarith) hunit.le
  · have hfull : a.coefficient = limit - 1 := by
      have := a.coefficient_lt
      omega
    rw [dif_neg hroom]
    by_cases hscale : a.scale = 0
    · rw [if_pos hscale]
      refine Or.inr ⟨?_, _, rfl⟩
      rw [continued_of_scale_eq_zero hscale, hfull]
      norm_num
      linarith
    · rw [if_neg hscale]
      refine Or.inl ⟨continued_lt (by linarith) hhigh (Or.inr (Or.inr hscale)), _, rfl, rfl, ?_⟩
      -- One digit less is left, and rounding it up adds five minus the part that it rounds off.
      obtain ⟨scale, hsucc⟩ := Nat.exists_eq_succ_of_ne_zero hscale
      have hten : (tenPow a.scale : ℚ) = tenPow scale * 10 := by
        rw [hsucc, Nat.succ_eq_add_one, tenPow_succ, Nat.cast_mul, Nat.cast_ofNat]
      have hplaces : a.scale - 1 = scale := by omega
      have hrounded : ((a.coefficient + 5) / 10 : Nat) = 7922816251426433759354395034 := by
        rw [hfull]
        rfl
      have hdiff : (((a.coefficient + 5) / 10 : Nat) : ℚ) / tenPow (a.scale - 1) -
          a.continued part = (5 - part) / 10 / tenPow scale := by
        rw [hrounded, continued, hplaces, hten, hfull]
        have := (tenPow_cast_pos scale).ne'
        field_simp
        norm_num
        ring
      show |(((a.coefficient + 5) / 10 : Nat) : ℚ) / tenPow (a.scale - 1) - a.continued part| ≤
        1 / 2 / tenPow (a.scale - 1)
      rw [hdiff, hplaces, abs_of_nonneg]
      · exact div_le_div_of_nonneg_right (by linarith) (tenPow_cast_pos scale).le
      · exact div_nonneg (by linarith) (tenPow_cast_pos scale).le

/-- The first digit says whether digits behind a point are at least a half. -/
theorem half_le_iff {digits : List Char} {c : Char} (hdigits : ∀ d ∈ digits, d.isDigit = true) :
    (1 : ℚ) / 2 ≤ (digitsValue (c :: digits) : Nat) / tenPow (c :: digits).length ↔
      5 ≤ digitValue c := by
  have hvalue := digitsValue_lt hdigits
  have hsplit : digitsValue (c :: digits) * 2 =
      digitValue c * 2 * tenPow digits.length + digitsValue digits * 2 := by
    rw [digitsValue_cons]
    ring
  have hplaces : tenPow (c :: digits).length = 10 * tenPow digits.length := by
    rw [List.length_cons, tenPow_succ, Nat.mul_comm]
  have hnat : tenPow (c :: digits).length ≤ digitsValue (c :: digits) * 2 ↔ 5 ≤ digitValue c := by
    rw [hsplit, hplaces]
    constructor
    · intro h
      by_contra hlow
      have hmul := Nat.mul_le_mul_right (tenPow digits.length)
        (Nat.mul_le_mul_right 2 (Nat.le_of_lt_succ (Nat.lt_of_not_le hlow)))
      omega
    · intro h
      have hmul := Nat.mul_le_mul_right (tenPow digits.length) (Nat.mul_le_mul_right 2 h)
      omega
  rw [div_le_div_iff₀ two_pos (tenPow_cast_pos _), one_mul, ← hnat]
  exact_mod_cast Iff.rfl

/-- The first digit that does not fit says how the last place is rounded. -/
theorem roundAt_rounded {digits : List Char} {c : Char} (hc : c.isDigit = true)
    (hdigits : ∀ d ∈ digits, d.isDigit = true) (a : Decimal) :
    ReadsRounded (a.roundAt (digitValue c) digits) a.negative
      (a.continued ((digitsValue (c :: digits) : Nat) / tenPow (c :: digits).length)) := by
  have hunit := tenPow_cast_pos (c :: digits).length
  have hlow : (0 : ℚ) ≤ (digitsValue (c :: digits) : Nat) / tenPow (c :: digits).length :=
    div_nonneg (Nat.cast_nonneg _) hunit.le
  have hhigh : ((digitsValue (c :: digits) : Nat) : ℚ) / tenPow (c :: digits).length < 1 := by
    rw [div_lt_one hunit]
    exact Nat.cast_lt.mpr (digitsValue_lt (List.forall_mem_cons.mpr ⟨hc, hdigits⟩))
  unfold roundAt
  rw [checkIgnored_digits hdigits]
  by_cases hup : 5 ≤ digitValue c
  · rw [if_pos hup]
    rcases increment_rounded ((half_le_iff hdigits).mpr hup) hhigh with
      ⟨hfits, b, hb, hrest⟩ | ⟨hlarge, fault, hfault⟩
    · rw [hb]
      exact Or.inl ⟨hfits, b, rfl, hrest⟩
    · rw [hfault]
      exact Or.inr ⟨hlarge, fault, rfl⟩
  · have hhalf := lt_of_not_ge (mt (half_le_iff hdigits).mp hup)
    rw [if_neg hup]
    refine Or.inl ⟨continued_lt hlow hhigh (Or.inl hhalf), a, rfl, rfl, ?_⟩
    have hscale := tenPow_cast_pos a.scale
    rw [magnitude, continued, ← sub_div, sub_add_cancel_left, neg_div, abs_neg,
      abs_of_nonneg (div_nonneg hlow hscale.le)]
    exact div_le_div_of_nonneg_right hhalf.le hscale.le

/-! ## Digits behind the point -/

theorem continued_zero (a : Decimal) : a.continued 0 = a.magnitude := by
  rw [continued, magnitude, add_zero]

/-- Digits behind the point are read as far as they fit, and then rounded. -/
theorem readDigits_fraction_rounded {digits : List Char}
    (hdigits : ∀ c ∈ digits, c.isDigit = true) (a : Decimal) (seen : Bool)
    (hsome : seen = true ∨ digits ≠ []) :
    ReadsRounded (readDigits a true seen digits) a.negative
      (a.continued ((digitsValue digits : Nat) / tenPow digits.length)) := by
  induction digits generalizing a seen with
  | nil =>
    have hseen : seen = true := hsome.resolve_right fun hne => hne rfl
    have hnone : ((digitsValue [] : Nat) : ℚ) / tenPow ([] : List Char).length = 0 :=
      (congrArg (· / _) Nat.cast_zero).trans (zero_div _)
    rw [hnone, readDigits_nil, hseen, if_pos rfl]
    refine Or.inl ⟨continued_lt le_rfl one_pos (Or.inl (by norm_num)), a, rfl, rfl, ?_⟩
    rw [continued_zero, sub_self, abs_zero]
    exact div_nonneg (by norm_num) (tenPow_cast_pos a.scale).le
  | cons c digits ih =>
    obtain ⟨hc, hrest⟩ := List.forall_mem_cons.mp hdigits
    rw [readDigits_digit hc, push?, if_pos rfl]
    by_cases hroom : a.coefficient * 10 + digitValue c < limit ∧ a.scale + 1 ≤ 28
    · rw [ofParts?, dif_pos hroom]
      -- A digit that is read takes its place in the coefficient.
      have hsame : a.continued ((digitsValue (c :: digits) : Nat) / tenPow (c :: digits).length) =
          continued ⟨a.negative, _, a.scale + 1, hroom.1, hroom.2⟩
            ((digitsValue digits : Nat) / tenPow digits.length) := by
        have hunit := tenPow_cast_ne_zero a.scale
        have hcount := tenPow_cast_ne_zero digits.length
        rw [continued, continued, digitsValue_cons, List.length_cons, tenPow_succ, tenPow_succ]
        push_cast
        field_simp
        ring
      rw [hsame]
      exact ih hrest ⟨a.negative, _, a.scale + 1, hroom.1, hroom.2⟩ true (Or.inl rfl)
    · rw [ofParts?, dif_neg hroom]
      exact roundAt_rounded hc hrest a

/-! ## Digits before the point -/

/-- Digits before the point are refused when they do not fit. -/
theorem readDigits_whole_error {digits : List Char} (hdigits : ∀ c ∈ digits, c.isDigit = true)
    (rest : List Char) (a : Decimal) (seen : Bool)
    (hlimit : limit ≤ a.coefficient * tenPow digits.length + digitsValue digits) :
    readDigits a false seen (digits ++ rest) = .error .tooManyDigits := by
  induction digits generalizing a seen with
  | nil =>
    have hfits := a.coefficient_lt
    have hnone : a.coefficient * tenPow 0 + digitsValue [] = a.coefficient := Nat.mul_one _
    rw [List.length_nil, hnone] at hlimit
    omega
  | cons c digits ih =>
    obtain ⟨hc, hrest⟩ := List.forall_mem_cons.mp hdigits
    rw [List.cons_append, readDigits_digit hc, push?, if_neg Bool.false_ne_true]
    by_cases hroom : a.coefficient * 10 + digitValue c < limit ∧ a.scale ≤ 28
    · rw [shift_digitsValue_cons] at hlimit
      rw [ofParts?, dif_pos hroom]
      exact ih hrest ⟨a.negative, _, a.scale, hroom.1, hroom.2⟩ true hlimit
    · rw [ofParts?, dif_neg hroom]
      rfl

/-! ## Whole numerals -/

variable {cs whole fraction : List Char}

/-- The digits of a numeral are read and rounded, unless its number is too large. -/
theorem Writes.readDigits_rounded (hcs : Writes cs whole fraction) :
    ReadsRounded (readDigits zero false false cs) false (numeralValue whole fraction) := by
  obtain ⟨hwhole, hfraction⟩ := List.forall_mem_append.mp hcs.digits
  have hunit := tenPow_cast_pos fraction.length
  have hvalue : numeralValue whole fraction =
      digitsValue whole + (digitsValue fraction : Nat) / tenPow fraction.length := by
    rw [numeralValue, digitsValue_append]
    push_cast
    field_simp
  by_cases hlimit : digitsValue whole < limit
  · obtain ⟨b, hnegative, hscale, hcoefficient, seen, hseen, hread⟩ :=
      hcs.exists_readDigits_behind hlimit
    have hrounded := readDigits_fraction_rounded hfraction b seen hseen
    rwa [continued_of_scale_eq_zero hscale, hcoefficient, ← hvalue, hnegative, ← hread] at hrounded
  · have herror := fun rest => readDigits_whole_error hwhole rest zero false
      ((Nat.le_of_not_lt hlimit).trans (Nat.le_add_left _ _))
    refine Or.inr ⟨?_, .tooManyDigits, ?_⟩
    · have hcast : ((limit : Nat) : ℚ) ≤ (digitsValue whole : Nat) :=
        Nat.cast_le.mpr (Nat.le_of_not_lt hlimit)
      have hnonneg : (0 : ℚ) ≤ (digitsValue fraction : Nat) / tenPow fraction.length :=
        div_nonneg (Nat.cast_nonneg _) hunit.le
      refine hcast.trans ?_
      rw [hvalue]
      linarith
    · rcases hcs.layout with rfl | ⟨rfl, rfl⟩
      · exact herror ('.' :: fraction)
      · have hall := herror []
        rwa [List.append_nil] at hall

theorem numeralValue_nonneg (whole fraction : List Char) : 0 ≤ numeralValue whole fraction :=
  div_nonneg (Nat.cast_nonneg _) (tenPow_cast_pos _).le

/-! ## Signs -/

/-- The number of a magnitude that gets a minus sign, unless it is zero. -/
theorem toRat_withSign (a : Decimal) (minus : Bool) :
    ({ a with negative := minus && a.coefficient != 0 } : Decimal).toRat =
      if minus then -a.magnitude else a.magnitude := by
  rw [toRat_eq_magnitude]
  show (if (minus && a.coefficient != 0) = true then -a.magnitude else a.magnitude) = _
  by_cases hzero : a.coefficient = 0
  · have hnone : a.magnitude = 0 := by rw [magnitude, hzero, Nat.cast_zero, zero_div]
    rw [hnone, neg_zero, ite_self, ite_self]
  · have hsome : (a.coefficient != 0) = true := bne_iff_ne.mpr hzero
    rw [hsome, Bool.and_true]

/-- A plain numeral: an optional sign, digits, and perhaps a point with digits behind it. -/
structure PlainNumeral where
  sign : List Char
  whole : List Char
  /-- The digits behind the point; there is a point exactly if there are any. -/
  fraction : List Char
  sign_mem : sign ∈ [[], ['+'], ['-']]
  whole_ne : whole ≠ []
  digits : ∀ c ∈ whole ++ fraction, c.isDigit = true

namespace PlainNumeral

variable (n : PlainNumeral)

/-- The numeral without its sign. -/
def unsigned : List Char := n.whole ++ if n.fraction = [] then [] else '.' :: n.fraction

/-- The characters of a numeral. -/
def characters : List Char := n.sign ++ n.unsigned

/-- The number that a numeral writes. -/
def value : ℚ :=
  if n.sign = ['-'] then -numeralValue n.whole n.fraction else numeralValue n.whole n.fraction

/-- The number of a numeral is small enough for a decimal, rounded half up to a whole number. -/
def Fits : Prop := |n.value| + 1 / 2 < limit

theorem writes : Writes n.unsigned n.whole n.fraction := by
  refine ⟨n.digits, by simp [n.whole_ne], ?_⟩
  unfold unsigned
  split
  · next hnone => exact Or.inr ⟨List.append_nil _, hnone⟩
  · exact Or.inl rfl

theorem abs_value : |n.value| = numeralValue n.whole n.fraction := by
  unfold value
  split
  · rw [abs_neg, abs_of_nonneg (numeralValue_nonneg _ _)]
  · rw [abs_of_nonneg (numeralValue_nonneg _ _)]

/-- The sign is read before the digits, and a zero does not keep it. -/
theorem readNumeral_characters :
    readNumeral n.characters = (readDigits zero false false n.unsigned).map fun a =>
      { a with negative := decide (n.sign = ['-']) && a.coefficient != 0 } := by
  obtain ⟨c, rest, hunsigned, hplus, hminus⟩ := n.writes.exists_cons
  have hsign := n.sign_mem
  simp only [List.mem_cons, List.not_mem_nil, or_false] at hsign
  unfold characters
  rcases hsign with hsign | hsign | hsign
  · rw [hsign, List.nil_append, hunsigned, readNumeral]
    simp [hplus, beq_false_of_ne hminus]
  · rw [hsign]
    rfl
  · rw [hsign]
    rfl

/-- **Numerals are rounded.** A plain numeral is read as the nearest number of as many digits as a
decimal has room for, and exactly where that is possible; it is refused if and only if it is too
large. -/
theorem readNumeral_rounded :
    (n.Fits ∧ ∃ a, readNumeral n.characters = .ok a ∧
      |a.toRat - n.value| ≤ 1 / 2 / tenPow a.scale ∧
      (Representable n.value → a.toRat = n.value)) ∨
    (¬ n.Fits ∧ ∃ fault, readNumeral n.characters = .error fault) := by
  unfold Fits
  rw [n.abs_value, n.readNumeral_characters]
  rcases n.writes.readDigits_rounded with ⟨hfits, a, ha, -, hnear⟩ | ⟨hlarge, fault, hfault⟩
  · refine Or.inl ⟨hfits, _, by rw [ha]; rfl, ?_, fun hexact => ?_⟩
    · rw [toRat_withSign, value]
      by_cases hminus : n.sign = ['-']
      · have hdiff : -a.magnitude - -numeralValue n.whole n.fraction =
            -(a.magnitude - numeralValue n.whole n.fraction) := by ring
        rw [decide_eq_true hminus, if_pos rfl, if_pos hminus, hdiff, abs_neg]
        exact hnear
      · rw [decide_eq_false hminus, if_neg Bool.false_ne_true, if_neg hminus]
        exact hnear
    · have hmagnitude : Representable (numeralValue n.whole n.fraction) := by
        unfold value at hexact
        split at hexact
        · simpa using hexact.neg
        · exact hexact
      obtain ⟨b, hb, -, hsame⟩ := n.writes.exists_readDigits hmagnitude
      obtain rfl : a = b := Except.ok.inj (ha.symm.trans hb)
      rw [toRat_withSign, hsame, value]
      by_cases hminus : n.sign = ['-']
      · rw [decide_eq_true hminus, if_pos rfl, if_pos hminus]
      · rw [decide_eq_false hminus, if_neg Bool.false_ne_true, if_neg hminus]
  · exact Or.inr ⟨not_lt.mpr hlarge, fault, by rw [hfault]; rfl⟩

end PlainNumeral

end Decimal

end Tariff
