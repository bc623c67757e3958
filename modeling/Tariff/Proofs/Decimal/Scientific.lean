/-
# Numerals with exponents are read exactly

A numeral with a power of ten behind it is read as the number that it writes, if that number and the
one without the power are representable.

* `shiftDown?_of_representable`, `shiftUp?_of_representable` : the point is moved;
* `exists_readNumeral_error` : a plain numeral has no `e` in it;
* `readExponent_of_digits` : the exponent;
* `exists_readScientific` : a plain numeral and the exponent behind it;
* `Writes.exists_ofText_scientific` : the whole text.
-/
import Tariff.Proofs.Decimal.Numeral

namespace Tariff

namespace Decimal

/-! ## Moving the point -/

theorem toRat_of_ofMagnitude? {negative : Bool} {coefficient scale : Nat} {a : Decimal}
    (h : ofMagnitude? negative coefficient scale = some a) :
    a.toRat = ((if negative then -coefficient else coefficient : Int) : ℚ) / tenPow scale := by
  rw [toRat_of_ofParts? h]
  rcases Nat.eq_zero_or_pos coefficient with rfl | hpos
  · simp
  · simp [Nat.ne_of_gt hpos]

/-- A number of a coefficient and a scale is representable when its magnitude is. -/
theorem representable_magnitude {a : Decimal} {unit : ℚ} (h : Representable (a.toRat * unit)) :
    Representable (a.magnitude * unit) := by
  rw [toRat_eq_magnitude] at h
  split at h
  · rw [neg_mul] at h
    simpa using h.neg
  · exact h

theorem signed_toRat (a : Decimal) :
    ((if a.negative then -(a.coefficient : Int) else a.coefficient : Int) : ℚ) / tenPow a.scale =
      a.toRat := rfl

/-- Zeros behind the point are dropped without rounding. -/
theorem shorten_of_zeros {a : Decimal} {scale count kept : Nat}
    (hscale : a.scale = scale + (count + 1))
    (hcoefficient : a.coefficient = tenPow (count + 1) * kept) : a.shorten scale = kept := by
  have hbeyond : ¬ a.scale ≤ scale := by omega
  have hlast : a.scale - scale - 1 = count := by omega
  have hquotient : a.coefficient / tenPow count = 10 * kept := by
    rw [hcoefficient, tenPow_succ, Nat.mul_assoc, Nat.mul_div_cancel_left _ (tenPow_pos count)]
  unfold shorten
  rw [if_neg hbeyond, hlast, hquotient]
  dsimp only
  rw [Nat.mul_mod_right, if_neg (by decide), Nat.mul_div_cancel_left kept (by decide)]

/-- A decimal is divided exactly by a power of ten, if the quotient is representable. -/
theorem shiftDown?_of_representable {a : Decimal} {exponent : Nat} (hexponent : exponent ≤ 28)
    (h : Representable (a.toRat / tenPow exponent)) :
    ∃ b, a.shiftDown? exponent = some b ∧ b.toRat = a.toRat / tenPow exponent := by
  have hunit := tenPow_cast_ne_zero exponent
  have hscale := tenPow_cast_ne_zero a.scale
  unfold shiftDown?
  by_cases hfits : a.scale + exponent ≤ 28
  · rw [if_pos hfits]
    have hparts : ofParts? a.negative a.coefficient (a.scale + exponent) =
        some ⟨a.negative, a.coefficient, a.scale + exponent, a.coefficient_lt, hfits⟩ :=
      dif_pos ⟨a.coefficient_lt, hfits⟩
    refine ⟨_, hparts, ?_⟩
    rw [toRat_of_ofParts? hparts, tenPow_add, Nat.cast_mul, ← div_div, signed_toRat]
  · rw [if_neg hfits]
    -- The digits behind the largest scale are zeros.
    have hmagnitude : Representable ((a.coefficient : ℚ) / tenPow (a.scale + exponent)) := by
      rw [div_eq_mul_inv] at h
      have := representable_magnitude h
      rwa [magnitude, ← div_eq_mul_inv, div_div, ← Nat.cast_mul, ← tenPow_add] at this
    obtain ⟨zeros, hle, hdvd, hkept, -⟩ := exists_zeros_of_representable hmagnitude
    have hzeros : a.scale + exponent - 28 ≤ zeros := by
      unfold maxScale at hkept
      omega
    obtain ⟨kept, hcoefficient⟩ := Nat.dvd_trans (tenPow_dvd_tenPow hzeros) hdvd
    obtain ⟨count, hcount⟩ : ∃ count, a.scale + exponent - 28 = count + 1 :=
      Nat.exists_eq_add_one.mpr (by omega)
    rw [hcount] at hcoefficient
    have hshorten : a.shorten (28 - exponent) = kept :=
      shorten_of_zeros (by omega) hcoefficient
    have hlimit : kept < limit := by
      refine Nat.lt_of_le_of_lt ?_ a.coefficient_lt
      rw [hcoefficient]
      exact Nat.le_mul_of_pos_left kept (tenPow_pos _)
    have hparts : ofParts? a.negative kept 28 =
        some ⟨a.negative, kept, 28, hlimit, Nat.le_refl 28⟩ := dif_pos ⟨hlimit, Nat.le_refl 28⟩
    refine ⟨_, by rw [hshorten, hparts], ?_⟩
    rw [toRat_of_ofParts? hparts, ← signed_toRat, div_div, ← Nat.cast_mul, ← tenPow_add]
    have hsum : a.scale + exponent = (count + 1) + 28 := by omega
    have hsigned : ((if a.negative then -(a.coefficient : Int) else a.coefficient : Int) : ℚ) =
        tenPow (count + 1) * ((if a.negative then -(kept : Int) else kept : Int) : ℚ) := by
      rw [hcoefficient]
      cases a.negative <;> simp
    rw [hsum, tenPow_add, Nat.cast_mul, hsigned,
      mul_div_mul_left _ _ (tenPow_cast_ne_zero (count + 1))]

/-- A decimal is multiplied exactly by a power of ten, if the product is representable. -/
theorem shiftUp?_of_representable {a : Decimal} {exponent : Nat}
    (h : Representable (a.toRat * tenPow exponent)) :
    ∃ b, a.shiftUp? exponent = some b ∧ b.toRat = a.toRat * tenPow exponent := by
  unfold shiftUp?
  by_cases hfits : exponent ≤ a.scale
  · rw [if_pos hfits]
    have hscale : a.scale - exponent ≤ 28 := Nat.le_trans (Nat.sub_le _ _) a.scale_le
    have hparts : ofParts? a.negative a.coefficient (a.scale - exponent) =
        some ⟨a.negative, a.coefficient, a.scale - exponent, a.coefficient_lt, hscale⟩ :=
      dif_pos ⟨a.coefficient_lt, hscale⟩
    refine ⟨_, hparts, ?_⟩
    have hsplit : tenPow a.scale = tenPow (a.scale - exponent) * tenPow exponent := by
      rw [← tenPow_add, Nat.sub_add_cancel hfits]
    have hunit := tenPow_cast_ne_zero exponent
    have hrest := tenPow_cast_ne_zero (a.scale - exponent)
    rw [toRat_of_ofParts? hparts, ← signed_toRat, hsplit, Nat.cast_mul]
    field_simp
  · rw [if_neg hfits]
    have hsplit : tenPow exponent = tenPow a.scale * tenPow (exponent - a.scale) := by
      rw [← tenPow_add, Nat.add_sub_cancel' (by omega)]
    have hscale := tenPow_cast_ne_zero a.scale
    have hproduct : a.magnitude * tenPow exponent =
        ((a.coefficient * tenPow (exponent - a.scale) : Nat) : ℚ) := by
      rw [magnitude, hsplit, Nat.cast_mul, Nat.cast_mul]
      field_simp
    have hlimit : a.coefficient * tenPow (exponent - a.scale) < limit := by
      have hwhole := representable_magnitude h
      rw [hproduct] at hwhole
      have : Representable
          (((a.coefficient * tenPow (exponent - a.scale) : Nat) : ℚ) / tenPow 0) := by
        simpa [tenPow] using hwhole
      obtain ⟨zeros, hle, -, -, hlimit⟩ := exists_zeros_of_representable this
      rw [Nat.le_zero.mp hle] at hlimit
      simpa [tenPow] using hlimit
    obtain ⟨b, hb⟩ : ∃ b, ofMagnitude? a.negative
        (a.coefficient * tenPow (exponent - a.scale)) 0 = some b :=
      ⟨_, dif_pos ⟨hlimit, Nat.zero_le 28⟩⟩
    refine ⟨b, hb, ?_⟩
    rw [toRat_of_ofMagnitude? hb, toRat_eq_magnitude]
    cases a.negative
    · simp only [Bool.false_eq_true, if_false]
      rw [hproduct]
      simp [tenPow]
    · simp only [if_true]
      rw [neg_mul, hproduct]
      simp [tenPow]

/-! ## Characters of plain numerals -/

theorem mem_of_checkIgnored {cs : List Char} (h : checkIgnored cs = .ok ()) :
    ∀ c ∈ cs, c.isDigit = true ∨ c = '_' := by
  induction cs with
  | nil => exact fun c hc => absurd hc List.not_mem_nil
  | cons c cs ih =>
    rw [checkIgnored] at h
    split at h
    · cases h
    · split at h
      · next hpart =>
        refine List.forall_mem_cons.mpr ⟨?_, ih h⟩
        simpa using hpart
      · cases h

theorem checkIgnored_of_roundAt {a b : Decimal} {digit : Nat} {cs : List Char}
    (h : a.roundAt digit cs = .ok b) : checkIgnored cs = .ok () := by
  unfold roundAt at h
  split at h
  all_goals
    obtain ⟨rounded, -, h⟩ := bind_eq_ok_iff.mp h
    obtain ⟨_, hignored, -⟩ := bind_eq_ok_iff.mp h
    exact hignored

theorem readDigits_other {c : Char} (hdigit : ¬ c.isDigit = true) (hpoint : ¬ (c == '.') = true)
    (hseparator : ¬ (c == '_') = true) (a : Decimal) (point seen : Bool) (cs : List Char) :
    readDigits a point seen (c :: cs) = .error .unknownCharacter :=
  (if_neg hdigit).trans ((if_neg hpoint).trans (if_neg hseparator))

/-- Digits that are read are digits, points and separators. -/
theorem mem_of_readDigits {a b : Decimal} {point seen : Bool} {cs : List Char}
    (h : readDigits a point seen cs = .ok b) :
    ∀ c ∈ cs, c.isDigit = true ∨ c = '.' ∨ c = '_' := by
  induction cs generalizing a point seen with
  | nil => exact fun c hc => absurd hc List.not_mem_nil
  | cons c cs ih =>
    rw [List.forall_mem_cons]
    by_cases hdigit : c.isDigit = true
    · refine ⟨Or.inl hdigit, ?_⟩
      rw [readDigits_digit hdigit] at h
      split at h
      · exact ih h
      · split at h
        · -- Behind the digit at which rounding takes place, there are no points.
          intro d hd
          exact (mem_of_checkIgnored (checkIgnored_of_roundAt h) d hd).imp_right Or.inr
        · cases h
    · by_cases hpoint : (c == '.') = true
      · obtain rfl := beq_iff_eq.mp hpoint
        cases point with
        | true => cases h
        | false => exact ⟨Or.inr (Or.inl rfl), ih h⟩
      · by_cases hseparator : (c == '_') = true
        · obtain rfl := beq_iff_eq.mp hseparator
          cases seen with
          | true => exact ⟨Or.inr (Or.inr rfl), ih h⟩
          | false => cases h
        · rw [readDigits_other hdigit hpoint hseparator] at h
          cases h

/-- Plain numerals are made of digits, points, separators and signs. -/
theorem mem_of_readNumeral {cs : List Char} {a : Decimal} (h : readNumeral cs = .ok a) :
    ∀ c ∈ cs, c.isDigit = true ∨ c = '.' ∨ c = '_' ∨ c = '+' ∨ c = '-' := by
  rcases cs with _ | ⟨first, rest⟩
  · exact fun c hc => absurd hc List.not_mem_nil
  · rw [readNumeral] at h
    obtain ⟨b, hdigits, -⟩ := map_eq_ok_iff.mp h
    have hparts := mem_of_readDigits hdigits
    have hwiden : ∀ c : Char, c.isDigit = true ∨ c = '.' ∨ c = '_' →
        c.isDigit = true ∨ c = '.' ∨ c = '_' ∨ c = '+' ∨ c = '-' := by
      rintro c (hdigit | rfl | rfl)
      · exact Or.inl hdigit
      · exact Or.inr (Or.inl rfl)
      · exact Or.inr (Or.inr (Or.inl rfl))
    split at hparts
    · next hsign =>
      refine List.forall_mem_cons.mpr ⟨?_, fun c hc => hwiden c (hparts c hc)⟩
      simp only [Bool.or_eq_true, beq_iff_eq] at hsign
      exact Or.inr (Or.inr (Or.inr hsign))
    · exact fun c hc => hwiden c (hparts c hc)

/-- A text with an `e` in it is no plain numeral. -/
theorem exists_readNumeral_error {cs : List Char} (h : 'e' ∈ cs) :
    ∃ fault, readNumeral cs = .error fault := by
  cases hread : readNumeral cs with
  | error fault => exact ⟨fault, rfl⟩
  | ok a =>
    exact absurd (mem_of_readNumeral hread 'e' h) (by decide)

/-! ## Exponents -/

/-- The digits of an exponent of at most 28, with a plus sign or without. -/
theorem readExponent_of_digits {digits : List Char} (hdigits : ∀ c ∈ digits, c.isDigit = true)
    (hnonempty : digits ≠ []) (hvalue : digitsValue digits ≤ 28) :
    readExponent digits = .ok (digitsValue digits) ∧
      readExponent ('+' :: digits) = .ok (digitsValue digits) := by
  have hfits : ¬ twoPow 32 ≤ digitsValue digits := by
    have hlarge : 28 < twoPow 32 := by decide
    omega
  have hwellFormed : (digits.isEmpty || !digits.all Char.isDigit ||
      decide (twoPow 32 ≤ digitsValue digits)) = false := by
    rw [List.isEmpty_eq_false_iff.mpr hnonempty, List.all_eq_true.mpr hdigits,
      decide_eq_false hfits]
    rfl
  have hread : readExponent ('+' :: digits) = .ok (digitsValue digits) := by
    show (if (digits.isEmpty || !digits.all Char.isDigit ||
      decide (twoPow 32 ≤ digitsValue digits)) = true then _
      else if 28 < digitsValue digits then _ else _) = _
    rw [hwellFormed, if_neg Bool.false_ne_true, if_neg (by omega)]
    rfl
  refine ⟨?_, hread⟩
  rw [← hread]
  rcases digits with _ | ⟨c, digits⟩
  · exact absurd rfl hnonempty
  · have hplus : c ≠ '+' := by
      rintro rfl
      have hdigit := hdigits _ List.mem_cons_self
      cases hdigit
    unfold readExponent
    split
    · next heq => exact absurd (List.cons.inj heq).1 hplus
    · rfl

/-! ## Whole texts -/

/-- The number of a numeral whose point is moved to the left or to the right. -/
def movedPoint (value : ℚ) (left : Bool) (count : Nat) : ℚ :=
  if left then value / tenPow count else value * tenPow count

theorem movedPoint_neg (value : ℚ) (left : Bool) (count : Nat) :
    movedPoint (-value) left count = -movedPoint value left count := by
  unfold movedPoint
  cases left
  · exact neg_mul value _
  · exact neg_div _ value

/-- The first mark of an exponent is the one behind a plain numeral. -/
theorem split_at_mark {cs : List Char} {base : Decimal} (hread : readNumeral cs = .ok base)
    (rest : List Char) :
    (cs ++ 'e' :: rest).takeWhile (fun c => !(c == 'e' || c == 'E')) = cs ∧
      (cs ++ 'e' :: rest).dropWhile (fun c => !(c == 'e' || c == 'E')) = 'e' :: rest := by
  let isUnmarked := fun c : Char => !(c == 'e' || c == 'E')
  have hunmarked : ∀ c ∈ cs, isUnmarked c = true := by
    intro c hc
    rcases mem_of_readNumeral hread c hc with hdigit | rfl | rfl | rfl | rfl
    · have hne : c ≠ 'e' ∧ c ≠ 'E' := by
        constructor <;> rintro rfl <;> cases hdigit
      simp [isUnmarked, hne.1, hne.2]
    all_goals decide
  have hmark : ¬ isUnmarked 'e' = true := by decide
  constructor
  · rw [List.takeWhile_append_of_pos hunmarked, List.takeWhile_cons_of_neg hmark, List.append_nil]
  · rw [List.dropWhile_append_of_pos hunmarked, List.dropWhile_cons_of_neg hmark]

/-- The point of a plain numeral is moved as its exponent says. -/
theorem exists_readScientific {cs digits : List Char} {base : Decimal}
    (hread : readNumeral cs = .ok base) (left : Bool) (hdigits : ∀ c ∈ digits, c.isDigit = true)
    (hnonempty : digits ≠ []) (hexponent : digitsValue digits ≤ 28)
    (h : Representable (movedPoint base.toRat left (digitsValue digits))) :
    ∃ a, readScientific (cs ++ 'e' :: (if left then '-' else '+') :: digits) = .ok a ∧
      a.toRat = movedPoint base.toRat left (digitsValue digits) := by
  obtain ⟨hplain, hplus⟩ := readExponent_of_digits hdigits hnonempty hexponent
  obtain ⟨hbefore, hbehind⟩ := split_at_mark hread ((if left then '-' else '+') :: digits)
  unfold readScientific
  dsimp only
  rw [hbefore, hbehind, hread]
  cases left
  · obtain ⟨a, ha, hvalue⟩ := shiftUp?_of_representable h
    refine ⟨a, ?_, hvalue⟩
    show ((readExponent ('+' :: digits)).map base.shiftUp? >>= fun shifted => _) = _
    rw [hplus, Except.map, ha]
    rfl
  · obtain ⟨a, ha, hvalue⟩ := shiftDown?_of_representable hexponent h
    refine ⟨a, ?_, hvalue⟩
    show ((readExponent digits).map base.shiftDown? >>= fun shifted => _) = _
    rw [hplain, Except.map, ha]
    rfl

/-- A text with a mark in it is read with an exponent. -/
theorem ofText_of_mark (cs rest : List Char) {a : Decimal}
    (h : readScientific (cs ++ 'e' :: rest) = .ok a) :
    ofText (String.ofList (cs ++ 'e' :: rest)) = .ok a := by
  have hmem : 'e' ∈ cs ++ 'e' :: rest := List.mem_append_right _ List.mem_cons_self
  obtain ⟨fault, hfault⟩ := exists_readNumeral_error hmem
  have hany : (cs ++ 'e' :: rest).any (fun c => c == 'e' || c == 'E') = true :=
    List.any_eq_true.mpr ⟨'e', hmem, rfl⟩
  rw [ofText, String.toList_ofList, hfault]
  dsimp only
  rw [if_pos hany, h]

/-- **Numerals with exponents are read exactly.** -/
theorem Writes.exists_ofText_scientific {cs whole fraction digits : List Char}
    (hcs : Writes cs whole fraction) (minus left : Bool)
    (hdigits : ∀ c ∈ digits, c.isDigit = true) (hnonempty : digits ≠ [])
    (hexponent : digitsValue digits ≤ 28) (hbase : Representable (numeralValue whole fraction))
    (h : Representable (movedPoint (numeralValue whole fraction) left (digitsValue digits))) :
    ∃ a, ofText (String.ofList ((if minus then '-' :: cs else cs) ++
          'e' :: (if left then '-' else '+') :: digits)) = .ok a ∧
      a.toRat = if minus then -movedPoint (numeralValue whole fraction) left (digitsValue digits)
        else movedPoint (numeralValue whole fraction) left (digitsValue digits) := by
  cases minus
  · obtain ⟨base, hread, hrat⟩ := hcs.exists_readNumeral hbase
    rw [← hrat] at h ⊢
    obtain ⟨a, ha, hvalue⟩ := exists_readScientific hread left hdigits hnonempty hexponent h
    exact ⟨a, ofText_of_mark _ _ ha, hvalue⟩
  · obtain ⟨base, hread, hrat⟩ := hcs.exists_readNumeral_minus hbase
    have hmoved := h.neg
    rw [← movedPoint_neg, ← hrat] at hmoved
    obtain ⟨a, ha, hvalue⟩ := exists_readScientific hread left hdigits hnonempty hexponent hmoved
    refine ⟨a, ofText_of_mark _ _ ha, ?_⟩
    rw [hvalue, hrat, movedPoint_neg]
    rfl

end Decimal

end Tariff
