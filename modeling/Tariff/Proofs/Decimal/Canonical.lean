/-
# Zeros without a minus sign

A numeral is read without the minus sign of a zero. Behind an exponent a number may become a zero by
rounding and keep its sign, but not one that has been written for a double: its digits stand for a
number of at least one, and the exponent is at most 28.

* `canonical_of_readNumeral` : numerals without an exponent;
* `pos_of_shiftDown?`, `pos_of_shiftUp?` : the point is moved;
* `canonical_of_numberText` : the texts of doubles;
* `JsonNumber.canonical_of_toText` : the texts of all numbers.
-/
import Tariff.Proofs.Decimal.Text
import Tariff.Proofs.Json.Number

namespace Tariff

namespace Decimal

/-- A zero has no minus sign. -/
def Canonical (a : Decimal) : Prop := a.coefficient = 0 → a.negative = false

variable {a b : Decimal}

/-- Written and read, such a decimal stays as it is. -/
theorem Canonical.reread_eq (h : a.Canonical) : a.reread = a := by
  have hsign : (a.negative && a.coefficient != 0) = a.negative := by
    by_cases hzero : a.coefficient = 0
    · rw [h hzero, Bool.false_and]
    · rw [bne_iff_ne.mpr hzero, Bool.and_true]
  rw [reread, hsign]

/-- Only a zero can fail to be canonical. -/
theorem canonical_of_pos (h : 0 < a.coefficient) : a.Canonical :=
  fun hzero => absurd hzero h.ne'

/-- Reading a plain numeral drops the sign of a zero. -/
theorem canonical_of_readNumeral {cs : List Char} (h : readNumeral cs = .ok a) : a.Canonical := by
  unfold readNumeral at h
  split at h
  · contradiction
  · obtain ⟨b, -, rfl⟩ := map_eq_ok_iff.mp h
    intro hzero
    have hcoefficient : b.coefficient = 0 := hzero
    simp [hcoefficient]

/-! ## Moving the point -/

/-- A decimal that is made of parts has their coefficient. -/
theorem coefficient_of_ofParts? {negative : Bool} {coefficient scale : Nat}
    (h : ofParts? negative coefficient scale = some a) : a.coefficient = coefficient := by
  unfold ofParts? at h
  split at h
  · cases h
    rfl
  · contradiction

/-- An exponent that has been read is small enough to move the point by it. -/
theorem readExponent_le {cs : List Char} {exponent : Nat} (h : readExponent cs = .ok exponent) :
    exponent ≤ 28 := by
  -- It does not matter which digits are left when a plus sign is dropped.
  have hdigits : ∀ digits : List Char,
      (if digits.isEmpty || !digits.all Char.isDigit || decide (twoPow 32 ≤ digitsValue digits) then
        .error NumeralFault.badExponent
      else if 28 < digitsValue digits then .error (.exponentTooLarge (digitsValue digits))
      else .ok (digitsValue digits)) = Except.ok exponent → exponent ≤ 28 := by
    intro digits h
    split at h
    · contradiction
    · split at h
      · contradiction
      · cases h
        omega
  exact hdigits _ h

/-- A number of at least one that is divided is not rounded to zero. -/
theorem pos_of_shiftDown? {exponent : Nat} (hexponent : exponent ≤ 28)
    (hone : tenPow a.scale ≤ a.coefficient) (h : a.shiftDown? exponent = some b) :
    0 < b.coefficient := by
  have hpos : 0 < a.coefficient := (tenPow_pos a.scale).trans_le hone
  unfold shiftDown? at h
  split at h
  · rwa [coefficient_of_ofParts? h]
  · next hscale =>
    rw [coefficient_of_ofParts? h, shorten, if_neg (by omega)]
    -- At least two digits are left before the last one is dropped.
    have hten : 10 ≤ a.coefficient / tenPow (a.scale - (28 - exponent) - 1) := by
      rw [Nat.le_div_iff_mul_le (tenPow_pos _)]
      calc 10 * tenPow (a.scale - (28 - exponent) - 1)
          = tenPow (a.scale - (28 - exponent) - 1 + 1) := by rw [tenPow_succ, Nat.mul_comm]
        _ ≤ tenPow a.scale := Nat.pow_le_pow_right (by decide) (by omega)
        _ ≤ a.coefficient := hone
    dsimp only
    split <;> omega

/-- Moving the point makes no zero of what is none. -/
theorem pos_of_shiftUp? {exponent : Nat} (hpos : 0 < a.coefficient)
    (h : a.shiftUp? exponent = some b) : 0 < b.coefficient := by
  unfold shiftUp? at h
  split at h
  · rwa [coefficient_of_ofParts? h]
  · rw [coefficient_of_ofParts? h]
    exact Nat.mul_pos hpos (tenPow_pos _)

/-! ## Texts -/

/-- Whether a character is the mark of an exponent. -/
def isMark (c : Char) : Bool := c == 'e' || c == 'E'

/-- What stands before an exponent is at least one. -/
theorem pos_of_readScientific {cs : List Char}
    (hone : ∀ base, readNumeral (cs.takeWhile fun c => !isMark c) = .ok base →
      tenPow base.scale ≤ base.coefficient)
    (h : readScientific cs = .ok a) : 0 < a.coefficient := by
  obtain ⟨base, hbase, h⟩ := bind_eq_ok_iff.mp h
  have hlarge := hone base hbase
  split at h
  · obtain ⟨shifted, hshifted, h⟩ := bind_eq_ok_iff.mp h
    obtain ⟨exponent, hexponent, hdown⟩ := map_eq_ok_iff.mp hshifted
    cases shifted with
    | none => cases h
    | some b =>
      obtain rfl := Except.ok.inj h
      exact pos_of_shiftDown? (readExponent_le hexponent) hlarge hdown
  · obtain ⟨shifted, hshifted, h⟩ := bind_eq_ok_iff.mp h
    obtain ⟨exponent, -, hup⟩ := map_eq_ok_iff.mp hshifted
    cases shifted with
    | none => cases h
    | some b =>
      obtain rfl := Except.ok.inj h
      exact pos_of_shiftUp? ((tenPow_pos _).trans_le hlarge) hup

/-- A text is read as a canonical decimal, if what stands before an exponent is at least one. -/
theorem canonical_of_ofText {s : String}
    (hone : s.toList.any isMark = true → ∀ base,
      readNumeral (s.toList.takeWhile fun c => !isMark c) = .ok base →
        tenPow base.scale ≤ base.coefficient)
    (h : ofText s = .ok a) : a.Canonical := by
  unfold ofText at h
  split at h
  · next hread =>
    cases h
    exact canonical_of_readNumeral hread
  · split at h
    · next hmark => exact canonical_of_pos (pos_of_readScientific (hone hmark) h)
    · contradiction

/-- A text without an exponent. -/
theorem canonical_of_unmarked {s : String} (hunmarked : ∀ c ∈ s.toList, isMark c = false)
    (h : ofText s = .ok a) : a.Canonical := by
  refine canonical_of_ofText (fun hmark => ?_) h
  obtain ⟨c, hc, hmark⟩ := List.any_eq_true.mp hmark
  rw [hunmarked c hc] at hmark
  contradiction

/-- A digit is no mark of an exponent. -/
theorem isMark_of_isDigit {c : Char} (h : c.isDigit = true) : isMark c = false := by
  unfold isMark
  rw [Bool.or_eq_false_iff, beq_eq_false_iff_ne, beq_eq_false_iff_ne]
  constructor <;> rintro rfl <;> cases h

/-- A plain numeral has no mark of an exponent in it. -/
theorem Writes.isMark_of_mem {cs whole fraction : List Char} (hcs : Writes cs whole fraction)
    {c : Char} (hc : c ∈ cs) : isMark c = false := by
  have hdigits := hcs.digits
  rcases hcs.layout with rfl | ⟨rfl, rfl⟩
  · rcases List.mem_append.mp hc with hc | hc
    · exact isMark_of_isDigit (hdigits c (List.mem_append_left _ hc))
    · rcases List.mem_cons.mp hc with rfl | hc
      · rfl
      · exact isMark_of_isDigit (hdigits c (List.mem_append_right _ hc))
  · exact isMark_of_isDigit (hdigits c (List.mem_append_left _ hc))

/-- A plain numeral of at least one is read as such, rounded or not. -/
theorem PlainNumeral.one_le_of_readNumeral (n : PlainNumeral)
    (hone : 1 ≤ numeralValue n.whole n.fraction) (h : readNumeral n.characters = .ok a) :
    tenPow a.scale ≤ a.coefficient := by
  rw [n.readNumeral_characters] at h
  obtain ⟨b, hb, rfl⟩ := map_eq_ok_iff.mp h
  show tenPow b.scale ≤ b.coefficient
  rcases n.writes.readDigits_rounded with ⟨-, c, hc, -, hnear⟩ | ⟨-, fault, hfault⟩
  · obtain rfl : b = c := Except.ok.inj (hb.symm.trans hc)
    have hunit := tenPow_cast_pos b.scale
    have hbelow : (1 : ℚ) - 1 / 2 / tenPow b.scale ≤ b.magnitude := by
      have := (abs_le.mp hnear).1
      linarith
    have hcoefficient : (tenPow b.scale : ℚ) - 1 / 2 ≤ b.coefficient := by
      rw [magnitude, le_div_iff₀ hunit, sub_mul, one_mul, div_mul_cancel₀ _ hunit.ne'] at hbelow
      exact hbelow
    -- Both are whole numbers.
    have hlt : (tenPow b.scale : ℚ) < (b.coefficient + 1 : Nat) := by
      push_cast
      linarith
    exact Nat.lt_succ_iff.mp (Nat.cast_lt.mp hlt)
  · rw [hb] at hfault
    contradiction

end Decimal

/-! ## Doubles -/

open Decimal (PlainNumeral isMark canonical_of_unmarked canonical_of_ofText)

namespace DecimalDigits

/-- The digits with a point behind the first one and with a sign. -/
def leading (d : DecimalDigits) (minus : Bool) : PlainNumeral where
  sign := if minus then ['-'] else []
  whole := (Nat.toDigits 10 d.digits).take 1
  fraction := (Nat.toDigits 10 d.digits).drop 1
  sign_mem := by cases minus <;> simp
  whole_ne := by simp [Nat.toDigits_ne_nil]
  digits := by
    rw [List.take_append_drop]
    exact fun c hc => Nat.isDigit_of_mem_toDigits (by decide) (by decide) hc

/-- The digits before an exponent make up at least one. -/
theorem one_le_leading {d : DecimalDigits} (hpos : 0 < d.digits) (minus : Bool) :
    1 ≤ numeralValue (d.leading minus).whole (d.leading minus).fraction := by
  have hsplit : (d.leading minus).whole ++ (d.leading minus).fraction = Nat.toDigits 10 d.digits :=
    List.take_append_drop _ _
  have hlength : (d.leading minus).fraction.length = (Nat.toDigits 10 d.digits).length - 1 :=
    List.length_drop
  rw [numeralValue, hsplit, digitsValue_toDigits, hlength]
  exact (leading_digits_bounds hpos).1

/-- The scientific layout is a plain numeral with an exponent behind it. -/
theorem toList_scientific (d : DecimalDigits) (minus : Bool) :
    ∃ exponent, ((if minus then "-" else "") ++ d.scientific).toList =
      (d.leading minus).characters ++ 'e' :: exponent := by
  refine ⟨(if d.exponent + (Nat.toDigits 10 d.digits).length - 1 < 0 then "-" else "+").toList ++
    (toString (d.exponent + (Nat.toDigits 10 d.digits).length - 1).natAbs).toList, ?_⟩
  rw [scientific, PlainNumeral.characters, PlainNumeral.unsigned, leading]
  simp only [String.toList_append, String.toList_ofList, List.append_assoc, List.isEmpty_iff]
  cases minus <;> rfl

/-- The numeral before the exponent has no mark of an exponent in it. -/
theorem isMark_of_mem_leading {d : DecimalDigits} {minus : Bool} {c : Char}
    (hc : c ∈ (d.leading minus).characters) : isMark c = false := by
  rcases List.mem_append.mp hc with hsign | hunsigned
  · have hminus : c = '-' := by
      cases minus <;> simp [leading] at hsign
      exact hsign
    rw [hminus]
    rfl
  · exact (d.leading minus).writes.isMark_of_mem hunsigned

/-- What is laid out with an exponent is read as a canonical decimal. -/
theorem canonical_of_scientific {d : DecimalDigits} (hpos : 0 < d.digits) (minus : Bool)
    {a : Decimal} (h : Decimal.ofText ((if minus then "-" else "") ++ d.scientific) = .ok a) :
    a.Canonical := by
  obtain ⟨exponent, htext⟩ := d.toList_scientific minus
  refine canonical_of_ofText (fun _ base hbase => ?_) h
  have hbefore : ((d.leading minus).characters ++ 'e' :: exponent).takeWhile (fun c => !isMark c) =
      (d.leading minus).characters := by
    rw [List.takeWhile_append_of_pos fun c hc => by rw [isMark_of_mem_leading hc]; rfl,
      List.takeWhile_cons_of_neg (by decide), List.append_nil]
  rw [htext, hbefore] at hbase
  exact (d.leading minus).one_le_of_readNumeral (one_le_leading hpos minus) hbase

end DecimalDigits

/-- The text of a double without an exponent. -/
theorem canonical_of_plainText {text : String} {whole fraction : List Char}
    (htext : Decimal.Writes text.toList whole fraction) (minus : Bool) {a : Decimal}
    (h : Decimal.ofText ((if minus then "-" else "") ++ text) = .ok a) : a.Canonical := by
  refine canonical_of_unmarked (fun c hc => ?_) h
  rw [String.toList_append] at hc
  rcases List.mem_append.mp hc with hsign | hc
  · have hminus : c = '-' := by
      cases minus <;> simp at hsign
      exact hsign
    rw [hminus]
    rfl
  · exact htext.isMark_of_mem hc

/-- What is read of the text of a double is no zero with a minus sign. -/
theorem canonical_of_numberText {p : BinaryParts}
    (hzero : (shortestDigits p).digits = 0 → (shortestDigits p).exponent = 0) {a : Decimal}
    (h : Decimal.ofText p.numberText = .ok a) : a.Canonical := by
  unfold BinaryParts.numberText at h
  generalize shortestDigits p = d at hzero h
  generalize p.negative = minus at h
  dsimp only at h
  by_cases hplace : -5 ≤ d.exponent + (Nat.toDigits 10 d.digits).length - 1 ∧
      d.exponent + (Nat.toDigits 10 d.digits).length - 1 ≤ 15
  · rw [if_pos hplace] at h
    by_cases hexponent : 0 ≤ d.exponent
    · obtain ⟨whole, fraction, hwrites, -⟩ := d.exists_writes_plain_of_nonneg hexponent
      rw [if_pos hexponent] at h
      exact canonical_of_plainText hwrites minus h
    · obtain ⟨whole, fraction, hwrites, -⟩ :=
        d.exists_writes_plain_of_neg (Int.not_le.mp hexponent)
      rw [if_neg hexponent] at h
      exact canonical_of_plainText hwrites minus h
  · have hpos : 0 < d.digits := by
      refine Nat.pos_of_ne_zero fun hdigits => hplace ?_
      rw [hdigits, hzero hdigits, Nat.toDigits_zero]
      decide
    rw [if_neg hplace] at h
    exact DecimalDigits.canonical_of_scientific hpos minus h

namespace JsonNumber

/-- The digits of an integer have no mark of an exponent among them. -/
theorem isMark_of_mem_toString {value : ℤ} {c : Char} (hc : c ∈ (toString value).toList) :
    isMark c = false := by
  have hdigits : ∀ n : Nat, ∀ c ∈ (Nat.repr n).toList, isMark c = false := by
    intro n c hc
    rw [Nat.toList_repr] at hc
    exact Decimal.isMark_of_isDigit (Nat.isDigit_of_mem_toDigits (by decide) (by decide) hc)
  cases value with
  | ofNat n => exact hdigits n c hc
  | negSucc n =>
    have hlist : (toString (Int.negSucc n)).toList = '-' :: (Nat.repr (n + 1)).toList := by
      show ("-" ++ Nat.repr (n + 1)).toList = _
      rw [String.toList_append]
      rfl
    rw [hlist] at hc
    rcases List.mem_cons.mp hc with rfl | hc
    · rfl
    · exact hdigits (n + 1) c hc

/-- **What is read of a number is no zero with a minus sign.** -/
theorem canonical_of_toText {number : JsonNumber} {a : Decimal}
    (h : Decimal.ofText number.toText = .ok a) : a.Canonical := by
  cases number with
  | integer value => exact canonical_of_unmarked (fun c hc => isMark_of_mem_toString hc) h
  | float x =>
    rw [toText, floatText] at h
    split at h
    · next p hp =>
      exact canonical_of_numberText
        (BinaryParts.shortestDigits_bounds (BinaryParts.le_exponent hp)).2 h
    · exact canonical_of_unmarked (by simp [isMark]) h

end JsonNumber

end Tariff
