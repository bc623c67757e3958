/-
# Numerals are read exactly

A numeral that writes a representable number is read as that number, however many digits it has:
those that are too many are zeros.

* `exists_readDigits_fraction` : the digits behind the point;
* `Writes.exists_readNumeral` : a whole numeral without a sign;
* `ofText_of_literalValue?` : the literals of formulas.
-/
import Mathlib.Data.List.TakeWhile
import Tariff.Decimal.Text
import Tariff.Proofs.Decimal.Operations
import Tariff.Proofs.Text.Digits

namespace Tariff

/-- The number that digits before the point and behind it write. -/
def numeralValue (whole fraction : List Char) : ℚ :=
  (digitsValue (whole ++ fraction) : Nat) / tenPow fraction.length

namespace Decimal

/-! ## One character -/

theorem readDigits_nil (a : Decimal) (point seen : Bool) :
    readDigits a point seen [] = if seen then .ok a else .error .noDigits := rfl

theorem readDigits_point (a : Decimal) (seen : Bool) (cs : List Char) :
    readDigits a false seen ('.' :: cs) = readDigits a true seen cs := rfl

theorem readDigits_digit {c : Char} (hc : c.isDigit = true) (a : Decimal) (point seen : Bool)
    (cs : List Char) :
    readDigits a point seen (c :: cs) =
      match a.push? (digitValue c) point with
      | some longer => readDigits longer point true cs
      | none => if point then a.roundAt (digitValue c) cs else .error .tooManyDigits :=
  if_pos hc

/-! ## Digits that are too many -/

theorem checkIgnored_digits {digits : List Char} (h : ∀ c ∈ digits, c.isDigit = true) :
    checkIgnored digits = .ok () := by
  induction digits with
  | nil => rfl
  | cons c digits ih =>
    obtain ⟨hc, hdigits⟩ := List.forall_mem_cons.mp h
    have hpoint : (c == '.') = false := by
      rw [beq_eq_false_iff_ne]
      rintro rfl
      cases hc
    rw [checkIgnored, hpoint, if_neg Bool.false_ne_true, hc, Bool.true_or, if_pos rfl, ih hdigits]

/-- Where no digit fits behind a coefficient any more, the digits to come are zeros, if the number
that is written is representable. -/
theorem eq_zero_of_full {coefficient scale value count : Nat} (hvalue : value < tenPow count)
    (h : Representable ((coefficient * tenPow count + value : Nat) / tenPow (scale + count)))
    (hfull : scale = 28 ∨ 0 < count ∧
      limit ≤ (coefficient * tenPow count + value) / tenPow (count - 1)) : value = 0 := by
  -- All digits to come are among the zeros that have to go.
  obtain ⟨zeros, -, hdvd, hscale, hlimit⟩ := exists_zeros_of_representable h
  have hcount : count ≤ zeros := by
    rcases hfull with rfl | ⟨hpos, hbeyond⟩
    · unfold maxScale at hscale
      omega
    · by_contra hlt
      have hle : tenPow zeros ≤ tenPow (count - 1) := Nat.pow_le_pow_right (by decide) (by omega)
      have hdiv : (coefficient * tenPow count + value) / tenPow (count - 1) ≤
          (coefficient * tenPow count + value) / tenPow zeros :=
        Nat.div_le_div_left hle (tenPow_pos zeros)
      omega
  have hvalue_dvd : tenPow count ∣ value :=
    (Nat.dvd_add_right (Nat.dvd_mul_left _ _)).mp (Nat.dvd_trans (tenPow_dvd_tenPow hcount) hdvd)
  exact Nat.eq_zero_of_dvd_of_lt hvalue_dvd hvalue

/-! ## Digits behind the point -/

/-- Digits behind the point are read exactly, if the number that they complete is representable. -/
theorem exists_readDigits_fraction {digits : List Char} (hdigits : ∀ c ∈ digits, c.isDigit = true)
    (a : Decimal) (seen : Bool) (hsome : seen = true ∨ digits ≠ [])
    (h : Representable ((a.coefficient * tenPow digits.length + digitsValue digits : Nat) /
      tenPow (a.scale + digits.length))) :
    ∃ b, readDigits a true seen digits = .ok b ∧ b.negative = a.negative ∧
      b.magnitude = (a.coefficient * tenPow digits.length + digitsValue digits : Nat) /
        tenPow (a.scale + digits.length) := by
  induction digits generalizing a seen with
  | nil =>
    have hseen : seen = true := hsome.resolve_right fun hne => hne rfl
    refine ⟨a, by rw [readDigits_nil, hseen, if_pos rfl], rfl, ?_⟩
    rw [magnitude]
    congr 2
    exact (Nat.mul_one a.coefficient).symm
  | cons c digits ih =>
    obtain ⟨hc, hrest⟩ := List.forall_mem_cons.mp hdigits
    have hvalue := digitsValue_lt hrest
    have hdigit := digitValue_lt hc
    -- A digit that is read takes its place in the coefficient.
    have hshift := shift_digitsValue_cons a.coefficient c digits
    have hscale : a.scale + (c :: digits).length = a.scale + 1 + digits.length := by
      rw [List.length_cons]
      omega
    rw [readDigits_digit hc, push?, if_pos rfl]
    by_cases hroom : a.coefficient * 10 + digitValue c < limit ∧ a.scale + 1 ≤ 28
    · rw [ofParts?, dif_pos hroom, hshift, hscale]
      rw [hshift, hscale] at h
      exact ih hrest ⟨a.negative, _, a.scale + 1, hroom.1, hroom.2⟩ true (Or.inl rfl) h
    · rw [ofParts?, dif_neg hroom]
      have hzero : digitsValue (c :: digits) = 0 := by
        refine eq_zero_of_full (digitsValue_lt hdigits) h ?_
        by_cases hlimit : a.coefficient * 10 + digitValue c < limit
        · have hle := a.scale_le
          exact Or.inl (by omega)
        · refine Or.inr ⟨Nat.succ_pos _, ?_⟩
          rw [hshift, List.length_cons, Nat.add_sub_cancel, Nat.le_div_iff_mul_le (tenPow_pos _)]
          have hmul := Nat.mul_le_mul_right (tenPow digits.length) (Nat.le_of_not_lt hlimit)
          omega
      have hdropped : digitValue c = 0 := by
        rw [digitsValue_cons] at hzero
        have hpos := tenPow_pos digits.length
        exact (Nat.mul_eq_zero.mp (Nat.eq_zero_of_add_eq_zero_right hzero)).resolve_right hpos.ne'
      refine ⟨a, ?_, rfl, ?_⟩
      · show roundAt a (digitValue c) digits = .ok a
        rw [hdropped, roundAt, if_neg (by decide), checkIgnored_digits hrest]
        rfl
      · rw [hzero, Nat.add_zero, magnitude, tenPow_add, Nat.cast_mul, Nat.cast_mul,
          mul_div_mul_right _ _ (tenPow_cast_ne_zero _)]

/-! ## Digits before the point -/

/-- Digits before the point are read as long as they stay below the limit. -/
theorem exists_readDigits_whole {digits : List Char} (hdigits : ∀ c ∈ digits, c.isDigit = true)
    (rest : List Char) (a : Decimal) (seen : Bool) (hscale : a.scale = 0)
    (hlimit : a.coefficient * tenPow digits.length + digitsValue digits < limit) :
    ∃ b : Decimal, b.negative = a.negative ∧ b.scale = 0 ∧
      b.coefficient = a.coefficient * tenPow digits.length + digitsValue digits ∧
      readDigits a false seen (digits ++ rest) =
        readDigits b false (seen || !digits.isEmpty) rest := by
  induction digits generalizing a seen with
  | nil =>
    refine ⟨a, rfl, hscale, (Nat.mul_one a.coefficient).symm, ?_⟩
    rw [List.nil_append, List.isEmpty_nil, Bool.not_true, Bool.or_false]
  | cons c digits ih =>
    obtain ⟨hc, hrest⟩ := List.forall_mem_cons.mp hdigits
    have hshift := shift_digitsValue_cons a.coefficient c digits
    have hfits : a.coefficient * 10 + digitValue c < limit := by
      have hmul := Nat.le_mul_of_pos_right (a.coefficient * 10 + digitValue c)
        (tenPow_pos digits.length)
      omega
    rw [hshift] at hlimit ⊢
    obtain ⟨b, hnegative, hwhole, hcoefficient, hread⟩ :=
      ih hrest ⟨a.negative, _, a.scale, hfits, a.scale_le⟩ true hscale hlimit
    refine ⟨b, hnegative, hwhole, hcoefficient, ?_⟩
    rw [List.cons_append, readDigits_digit hc, push?, if_neg Bool.false_ne_true, ofParts?,
      dif_pos ⟨hfits, a.scale_le⟩]
    rw [Bool.true_or] at hread
    rw [List.isEmpty_cons, Bool.not_false, Bool.or_true]
    exact hread

/-- A representable number has a whole part below the limit. -/
theorem lt_limit_of_representable {whole value count : Nat}
    (h : Representable ((whole * tenPow count + value : Nat) / tenPow count)) : whole < limit := by
  obtain ⟨zeros, hle, -, -, hlimit⟩ := exists_zeros_of_representable h
  have hzeros : tenPow zeros ≤ tenPow count := Nat.pow_le_pow_right (by decide) hle
  have hdiv : (whole * tenPow count + value) / tenPow count ≤
      (whole * tenPow count + value) / tenPow zeros := Nat.div_le_div_left hzeros (tenPow_pos zeros)
  have hwhole : whole ≤ (whole * tenPow count + value) / tenPow count := by
    rw [Nat.le_div_iff_mul_le (tenPow_pos count)]
    omega
  omega

/-! ## Whole numerals -/

/-- A text of digits, with or without a point: those before the point and those behind it. -/
structure Writes (cs whole fraction : List Char) : Prop where
  digits : ∀ c ∈ whole ++ fraction, c.isDigit = true
  nonempty : whole ++ fraction ≠ []
  layout : cs = whole ++ '.' :: fraction ∨ cs = whole ∧ fraction = []

variable {cs whole fraction : List Char}

/-- The digits before the point are read if they fit, and then those behind it. -/
theorem Writes.exists_readDigits_behind (hcs : Writes cs whole fraction)
    (hlimit : digitsValue whole < limit) :
    ∃ b : Decimal, b.negative = false ∧ b.scale = 0 ∧ b.coefficient = digitsValue whole ∧
      ∃ seen, (seen = true ∨ fraction ≠ []) ∧
        readDigits zero false false cs = readDigits b true seen fraction := by
  have hwhole := (List.forall_mem_append.mp hcs.digits).1
  have hstart : zero.coefficient * tenPow whole.length + digitsValue whole = digitsValue whole := by
    show 0 * tenPow whole.length + digitsValue whole = _
    rw [Nat.zero_mul, Nat.zero_add]
  have hread := fun rest =>
    exists_readDigits_whole hwhole rest zero false rfl (hstart.symm ▸ hlimit)
  rw [hstart] at hread
  rcases hcs.layout with rfl | ⟨rfl, rfl⟩
  · obtain ⟨b, hnegative, hscale, hcoefficient, hread⟩ := hread ('.' :: fraction)
    refine ⟨b, hnegative, hscale, hcoefficient, _, ?_, by rw [hread, readDigits_point]⟩
    rcases whole with _ | ⟨c, whole⟩
    · exact Or.inr (by simpa using hcs.nonempty)
    · exact Or.inl rfl
  · obtain ⟨b, hnegative, hscale, hcoefficient, hread⟩ := hread []
    rw [List.append_nil] at hread
    refine ⟨b, hnegative, hscale, hcoefficient, _, Or.inl ?_,
      by rw [hread, readDigits_nil, readDigits_nil]⟩
    rcases cs with _ | ⟨c, cs⟩
    · exact absurd rfl hcs.nonempty
    · rfl

/-- The digits of a representable number are read exactly. -/
theorem Writes.exists_readDigits (hcs : Writes cs whole fraction)
    (h : Representable (numeralValue whole fraction)) :
    ∃ a, readDigits zero false false cs = .ok a ∧ a.negative = false ∧
      a.magnitude = numeralValue whole fraction := by
  have hfraction := (List.forall_mem_append.mp hcs.digits).2
  rw [numeralValue, digitsValue_append] at h ⊢
  obtain ⟨b, hnegative, hscale, hcoefficient, seen, hseen, hread⟩ :=
    hcs.exists_readDigits_behind (lt_limit_of_representable h)
  have hcompleted : Representable
      ((b.coefficient * tenPow fraction.length + digitsValue fraction : Nat) /
        tenPow (b.scale + fraction.length)) := by
    rw [hcoefficient, hscale, Nat.zero_add]
    exact h
  obtain ⟨a, ha, hsign, hmagnitude⟩ := exists_readDigits_fraction hfraction b seen hseen hcompleted
  refine ⟨a, hread.trans ha, hsign.trans hnegative, ?_⟩
  rw [hmagnitude, hscale, hcoefficient, Nat.zero_add]

/-- Such a text starts with a digit or with the point. -/
theorem Writes.exists_cons (hcs : Writes cs whole fraction) :
    ∃ c rest, cs = c :: rest ∧ c ≠ '+' ∧ c ≠ '-' := by
  have hparts : ∀ c ∈ cs, c ≠ '+' ∧ c ≠ '-' := by
    intro c hc
    have hpart : c.isDigit = true ∨ c = '.' := by
      rcases hcs.layout with rfl | ⟨rfl, rfl⟩
      · rcases List.mem_append.mp hc with hwhole | htail
        · exact Or.inl (hcs.digits c (List.mem_append_left _ hwhole))
        · rcases List.mem_cons.mp htail with hpoint | hfraction
          · exact Or.inr hpoint
          · exact Or.inl (hcs.digits c (List.mem_append_right _ hfraction))
      · exact Or.inl (hcs.digits c (List.mem_append_left _ hc))
    constructor
    · rintro rfl
      revert hpart
      decide
    · rintro rfl
      revert hpart
      decide
  rcases cs with _ | ⟨c, rest⟩
  · rcases hcs.layout with h | ⟨rfl, rfl⟩
    · simp at h
    · exact absurd rfl hcs.nonempty
  · exact ⟨c, rest, rfl, hparts c List.mem_cons_self⟩

/-- **Numerals are read exactly.** A text of digits and at most one point is read as the number
that it writes, if a decimal stands for that number. -/
theorem Writes.exists_readNumeral (hcs : Writes cs whole fraction)
    (h : Representable (numeralValue whole fraction)) :
    ∃ a, readNumeral cs = .ok a ∧ a.toRat = numeralValue whole fraction := by
  obtain ⟨a, ha, hnegative, hmagnitude⟩ := hcs.exists_readDigits h
  obtain ⟨c, rest, rfl, hplus, hminus⟩ := hcs.exists_cons
  have hunsigned : (c == '+' || c == '-') = false := by simp [hplus, hminus]
  have hsign : (c == '-') = false := by simp [hminus]
  refine ⟨a, ?_, by rw [toRat_eq_magnitude, hnegative, ← hmagnitude]; rfl⟩
  rw [readNumeral, hunsigned, if_neg Bool.false_ne_true, ha, hsign]
  obtain ⟨negative, coefficient, scale, hcoefficient, hscale⟩ := a
  cases hnegative
  rfl

/-- With a minus sign, the number is negated. -/
theorem Writes.exists_readNumeral_minus (hcs : Writes cs whole fraction)
    (h : Representable (numeralValue whole fraction)) :
    ∃ a, readNumeral ('-' :: cs) = .ok a ∧ a.toRat = -numeralValue whole fraction := by
  obtain ⟨a, ha, hnegative, hmagnitude⟩ := hcs.exists_readDigits h
  refine ⟨{ a with negative := a.coefficient != 0 }, ?_, ?_⟩
  · show (readDigits zero false false cs).map _ = _
    rw [ha]
    rfl
  · rw [toRat_eq_magnitude, ← hmagnitude]
    show (if (a.coefficient != 0) = true then -a.magnitude else a.magnitude) = -a.magnitude
    split
    · rfl
    · next hzero =>
      have hnone : a.magnitude = 0 := by
        rw [magnitude, show a.coefficient = 0 by simpa using hzero, Nat.cast_zero, zero_div]
      rw [hnone, neg_zero]

/-! ## Literals -/

/-- The number that a text of digits with at most one point and at least one digit writes. -/
def literalValue? (text : String) : Option ℚ :=
  let whole := text.toList.takeWhile Char.isDigit
  match text.toList.dropWhile Char.isDigit with
  | [] => if whole.isEmpty then none else some (numeralValue whole [])
  | '.' :: fraction =>
    if fraction.all Char.isDigit && !(whole ++ fraction).isEmpty then
      some (numeralValue whole fraction)
    else none
  | _ => none

theorem literalValue?_eq_some_iff {text : String} {q : ℚ} :
    literalValue? text = some q ↔
      ∃ whole fraction, Writes text.toList whole fraction ∧ numeralValue whole fraction = q := by
  have hdigits : ∀ c ∈ text.toList.takeWhile Char.isDigit, c.isDigit = true :=
    fun c hc => List.mem_takeWhile_imp hc
  constructor
  · intro h
    have hsplit := List.takeWhile_append_dropWhile (p := Char.isDigit) (l := text.toList)
    unfold literalValue? at h
    dsimp only at h
    split at h
    · next hrest =>
      rw [hrest, List.append_nil] at hsplit
      split at h
      · cases h
      · next hnonempty =>
        cases h
        refine ⟨_, [], ⟨by simpa using hdigits, by simpa using hnonempty, ?_⟩, rfl⟩
        exact Or.inr ⟨hsplit.symm, rfl⟩
    · next fraction hrest =>
      rw [hrest] at hsplit
      split at h
      · next hfraction =>
        cases h
        rw [Bool.and_eq_true, List.all_eq_true] at hfraction
        exact ⟨_, fraction, ⟨List.forall_mem_append.mpr ⟨hdigits, hfraction.1⟩,
          by simpa using hfraction.2, Or.inl hsplit.symm⟩, rfl⟩
      · cases h
    · cases h
  · rintro ⟨whole, fraction, ⟨hall, hnonempty, hlayout⟩, rfl⟩
    obtain ⟨hwhole, hfraction⟩ := List.forall_mem_append.mp hall
    unfold literalValue?
    rcases hlayout with hlayout | ⟨hlayout, rfl⟩
    · rw [hlayout, List.takeWhile_append_of_pos hwhole, List.dropWhile_append_of_pos hwhole]
      have hpoint : Char.isDigit '.' = false := by decide
      rw [List.takeWhile_cons_of_neg (by simp [hpoint]), List.append_nil,
        List.dropWhile_cons_of_neg (by simp [hpoint])]
      refine if_pos ?_
      rw [Bool.and_eq_true, List.all_eq_true]
      exact ⟨hfraction, by simpa using hnonempty⟩
    · rw [List.append_nil] at hnonempty
      rw [hlayout, List.takeWhile_eq_self_iff.mpr hwhole, List.dropWhile_eq_nil_iff.mpr hwhole]
      exact if_neg (by simpa using hnonempty)

/-- **Literals are read exactly**, if they write a representable number. -/
theorem ofText_of_literalValue? {text : String} {q : ℚ} (hvalue : literalValue? text = some q)
    (h : Representable q) : ∃ a, ofText text = .ok a ∧ a.toRat = q := by
  obtain ⟨whole, fraction, hwrites, rfl⟩ := literalValue?_eq_some_iff.mp hvalue
  obtain ⟨a, ha, hrat⟩ := hwrites.exists_readNumeral h
  exact ⟨a, by rw [ofText, ha], hrat⟩

end Decimal

end Tariff
