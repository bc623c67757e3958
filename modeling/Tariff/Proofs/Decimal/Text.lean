/-
# Decimals are read as they were written

The text of a decimal shows its sign, its digits and its scale, and is read with all of them. Only a
zero loses its minus sign.

* `exists_readDigits_exact` : digits that fit are read with their number of places;
* `numeral` : the plain numeral that a decimal is written as;
* `readNumeral_toText` : the decimal of its text.
-/
import Tariff.Proofs.Decimal.Rounded

namespace Tariff

namespace Decimal

/-! ## Digits that fit -/

/-- Digits behind the point are read one by one while they fit. -/
theorem exists_readDigits_fraction_exact {digits : List Char}
    (hdigits : ∀ c ∈ digits, c.isDigit = true) (a : Decimal) (seen : Bool)
    (hsome : seen = true ∨ digits ≠ [])
    (hlimit : a.coefficient * tenPow digits.length + digitsValue digits < limit)
    (hscale : a.scale + digits.length ≤ 28) :
    ∃ b, readDigits a true seen digits = .ok b ∧
      b.coefficient = a.coefficient * tenPow digits.length + digitsValue digits ∧
      b.scale = a.scale + digits.length := by
  induction digits generalizing a seen with
  | nil =>
    have hseen : seen = true := hsome.resolve_right fun hne => hne rfl
    exact ⟨a, by rw [readDigits_nil, hseen, if_pos rfl], (Nat.mul_one a.coefficient).symm, rfl⟩
  | cons c digits ih =>
    obtain ⟨hc, hrest⟩ := List.forall_mem_cons.mp hdigits
    rw [shift_digitsValue_cons] at hlimit ⊢
    have hplaces : a.scale + (c :: digits).length = a.scale + 1 + digits.length := by
      rw [List.length_cons]
      omega
    rw [hplaces] at hscale ⊢
    have hroom : a.coefficient * 10 + digitValue c < limit ∧ a.scale + 1 ≤ 28 := by
      have hmul := Nat.le_mul_of_pos_right (a.coefficient * 10 + digitValue c)
        (tenPow_pos digits.length)
      omega
    rw [readDigits_digit hc, push?, if_pos rfl, ofParts?, dif_pos hroom]
    exact ih hrest ⟨a.negative, _, a.scale + 1, hroom.1, hroom.2⟩ true (Or.inl rfl) hlimit hscale

/-- The digits of a numeral are read with their number of places, if all of them fit. -/
theorem Writes.exists_readDigits_exact {cs whole fraction : List Char}
    (hcs : Writes cs whole fraction) (hlimit : digitsValue (whole ++ fraction) < limit)
    (hscale : fraction.length ≤ 28) :
    ∃ a, readDigits zero false false cs = .ok a ∧
      a.coefficient = digitsValue (whole ++ fraction) ∧ a.scale = fraction.length := by
  have hfraction := (List.forall_mem_append.mp hcs.digits).2
  rw [digitsValue_append] at hlimit ⊢
  have hwhole : digitsValue whole < limit := by
    have hmul := Nat.le_mul_of_pos_right (digitsValue whole) (tenPow_pos fraction.length)
    omega
  obtain ⟨b, -, hplaces, hcoefficient, seen, hseen, hread⟩ := hcs.exists_readDigits_behind hwhole
  rw [← hcoefficient] at hlimit ⊢
  obtain ⟨a, ha, hvalue, hscale⟩ :=
    exists_readDigits_fraction_exact hfraction b seen hseen hlimit (by omega)
  exact ⟨a, hread.trans ha, hvalue, by rw [hscale, hplaces, Nat.zero_add]⟩

/-! ## Written decimals -/

/-- The padded digits have at least one digit before the point. -/
theorem scale_lt_length_paddedDigits (a : Decimal) : a.scale < a.paddedDigits.length := by
  rw [paddedDigits, List.length_append, List.length_replicate]
  omega

/-- Padding with zeros leaves the value of the coefficient. -/
theorem digitsValue_paddedDigits (a : Decimal) : digitsValue a.paddedDigits = a.coefficient := by
  rw [paddedDigits, digitsValue_zeros_append, digitsValue_toDigits]

/-- Padding adds nothing but digits. -/
theorem isDigit_of_mem_paddedDigits {a : Decimal} {c : Char} (h : c ∈ a.paddedDigits) :
    c.isDigit = true := by
  rcases List.mem_append.mp h with h | h
  · rw [List.eq_of_mem_replicate h]
    rfl
  · exact Nat.isDigit_of_mem_toDigits (by decide) (by decide) h

/-- The plain numeral that a decimal is written as. -/
def numeral (a : Decimal) : PlainNumeral where
  sign := if a.negative then ['-'] else []
  whole := a.paddedDigits.take (a.paddedDigits.length - a.scale)
  fraction := a.paddedDigits.drop (a.paddedDigits.length - a.scale)
  sign_mem := by cases a.negative <;> simp
  whole_ne := by
    have hlength := a.scale_lt_length_paddedDigits
    apply List.ne_nil_of_length_pos
    rw [List.length_take]
    omega
  digits := by
    rw [List.take_append_drop]
    exact fun c hc => isDigit_of_mem_paddedDigits hc

/-- A written decimal has as many digits behind the point as its scale says. -/
theorem length_fraction_numeral (a : Decimal) : a.numeral.fraction.length = a.scale := by
  have hlength := a.scale_lt_length_paddedDigits
  show (a.paddedDigits.drop _).length = _
  rw [List.length_drop]
  omega

/-- The text of a decimal is the spelling of its numeral. -/
theorem toList_toText (a : Decimal) : a.toText.toList = a.numeral.characters := by
  have hnone : a.numeral.fraction = [] ↔ a.scale = 0 := by
    rw [← List.length_eq_zero_iff, length_fraction_numeral]
  rw [toText, String.toList_ofList, PlainNumeral.characters, PlainNumeral.unsigned,
    List.append_assoc]
  by_cases hscale : a.scale = 0
  · rw [if_pos hscale, if_pos (hnone.mpr hscale)]
    rfl
  · rw [if_neg hscale, if_neg (mt hnone.mp hscale)]
    rfl

/-- What is read of the text of a decimal: a zero loses its minus sign. -/
def reread (a : Decimal) : Decimal :=
  { a with negative := a.negative && a.coefficient != 0 }

/-- Writing and reading keeps the scale. -/
theorem scale_reread (a : Decimal) : a.reread.scale = a.scale := rfl

/-- Writing and reading keeps the value: only the sign of a zero is lost. -/
theorem toRat_reread (a : Decimal) : a.reread.toRat = a.toRat := by
  rw [reread, toRat_withSign, toRat_eq_magnitude]

/-- **The text of a decimal is read as the decimal**, with its sign, digits and scale, but for the
sign of a zero. -/
theorem readNumeral_toText (a : Decimal) : readNumeral a.toText.toList = .ok a.reread := by
  have hdigits : a.numeral.whole ++ a.numeral.fraction = a.paddedDigits := List.take_append_drop _ _
  obtain ⟨b, hb, hcoefficient, hscale⟩ := a.numeral.writes.exists_readDigits_exact
    (by rw [hdigits, digitsValue_paddedDigits]; exact a.coefficient_lt)
    (by rw [length_fraction_numeral]; exact a.scale_le)
  rw [hdigits, digitsValue_paddedDigits] at hcoefficient
  rw [length_fraction_numeral] at hscale
  have hsign : decide (a.numeral.sign = ['-']) = a.negative := by
    show decide ((if a.negative then ['-'] else []) = ['-']) = a.negative
    cases a.negative <;> rfl
  rw [toList_toText, PlainNumeral.readNumeral_characters, hb, hsign]
  obtain ⟨negative, coefficient, scale, hlimit, hplaces⟩ := b
  subst hcoefficient hscale
  rfl

end Decimal

end Tariff
