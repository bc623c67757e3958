/-
# Shortest digits

The decimal numbers of a number of digits form a grid. The search for shortest digits looks at the
two points of each grid next to a double, beginning with the coarsest grid. The interval of a double
is narrower than a step of the grid of fifteen digits, and so a point of that grid is found again.

* `RoundingInterval.holds_iff` : which numbers round to a double;
* `RoundingInterval.leadingExponent_bounds` : where the first digit of a double stands;
* `RoundingInterval.candidate?_cases` : the candidates of a number of digits;
* `BinaryParts.shortestDigits_bounds` : how many digits there are;
* `BinaryParts.toRat_shortestDigits` : numbers of fifteen digits.
-/
import Tariff.Proofs.Binary.Layout

namespace Tariff

/-! ## Powers of ten -/

/-- Of a power of ten, one part is multiplied in and the other one divided out. -/
theorem tenPow_toNat_div (e : ℤ) :
    (tenPow e.toNat : ℚ) / tenPow (-e).toNat = (10 : ℚ) ^ e := by
  rw [tenPow_cast, tenPow_cast, ← zpow_sub₀ (by norm_num)]
  congr 1
  omega

namespace RoundingInterval

variable {i : RoundingInterval}

/-- The number that an interval surrounds. -/
def number (i : RoundingInterval) : ℚ := i.value / i.denominator

/-- The lower end of an interval. -/
def low (i : RoundingInterval) : ℚ := i.lower / i.denominator

/-- The upper end of an interval. -/
def high (i : RoundingInterval) : ℚ := i.upper / i.denominator

/-- The numbers in an interval. -/
def Holds (i : RoundingInterval) (q : ℚ) : Prop :=
  if i.closed then i.low ≤ q ∧ q ≤ i.high else i.low < q ∧ q < i.high

/-- Fractions are compared by the products of their parts. -/
theorem scaled_le_iff (hdenominator : 0 < i.denominator) (n : Nat) (d : DecimalDigits) :
    (n * tenPow (-d.exponent).toNat ≤ d.digits * tenPow d.exponent.toNat * i.denominator ↔
      (n : ℚ) / i.denominator ≤ d.toRat) ∧
    (d.digits * tenPow d.exponent.toNat * i.denominator ≤ n * tenPow (-d.exponent).toNat ↔
      d.toRat ≤ (n : ℚ) / i.denominator) := by
  have hden : (0 : ℚ) < i.denominator := Nat.cast_pos.mpr hdenominator
  have hunit := tenPow_cast_pos (-d.exponent).toNat
  have hrat : d.toRat =
      (d.digits * tenPow d.exponent.toNat : Nat) / tenPow (-d.exponent).toNat := by
    rw [DecimalDigits.toRat, ← tenPow_toNat_div, Nat.cast_mul, mul_div_assoc]
  constructor
  · rw [hrat, div_le_div_iff₀ hden hunit]
    exact_mod_cast Iff.rfl
  · rw [hrat, div_le_div_iff₀ hunit hden]
    exact_mod_cast Iff.rfl

/-- The test decides which decimal digits lie in an interval. -/
theorem holds_iff (hdenominator : 0 < i.denominator) (d : DecimalDigits) :
    i.holds d = true ↔ i.Holds d.toRat := by
  obtain ⟨hlow, hlow'⟩ := scaled_le_iff hdenominator i.lower d
  obtain ⟨hhigh, hhigh'⟩ := scaled_le_iff hdenominator i.upper d
  unfold holds Holds low high
  split
  · rw [Bool.and_eq_true, decide_eq_true_eq, decide_eq_true_eq, hlow, hhigh']
  · rw [Bool.and_eq_true, decide_eq_true_eq, decide_eq_true_eq, ← Nat.not_le, ← Nat.not_le, hlow',
      hhigh, not_le, not_le]

/-- The first digit of a number that is not too small stands where it is said to stand. -/
theorem leadingExponent_bounds (hdenominator : 0 < i.denominator)
    (hlarge : i.denominator ≤ i.value * tenPow 340) :
    (10 : ℚ) ^ i.leadingExponent ≤ i.number ∧ i.number < (10 : ℚ) ^ (i.leadingExponent + 1) := by
  let n := i.value * tenPow 340 / i.denominator
  have hpos : 0 < n := Nat.div_pos hlarge hdenominator
  obtain ⟨count, hcount⟩ : ∃ count, (Nat.toDigits 10 n).length = count + 1 :=
    Nat.exists_eq_add_one.mpr Nat.length_toDigits_pos
  have hleading : i.leadingExponent = (count : ℤ) - (340 : Nat) := by
    show ((Nat.toDigits 10 n).length : ℤ) - 341 = _
    rw [hcount]
    omega
  have hone := (DecimalDigits.leading_digits_bounds hpos).1
  rw [hcount, Nat.add_sub_cancel, le_div_iff₀ (tenPow_cast_pos count), one_mul, tenPow_cast] at hone
  have hden : (0 : ℚ) < i.denominator := Nat.cast_pos.mpr hdenominator
  have hunit : (0 : ℚ) < 10 ^ ((340 : Nat) : ℤ) := zpow_pos (by norm_num) _
  have hfloor : (n : ℚ) ≤ i.number * 10 ^ ((340 : Nat) : ℤ) := by
    rw [← tenPow_cast, number, div_mul_eq_mul_div, le_div_iff₀ hden]
    exact_mod_cast Nat.div_mul_le_self _ _
  have hnext : i.number * 10 ^ ((340 : Nat) : ℤ) < n + 1 := by
    rw [← tenPow_cast, number, div_mul_eq_mul_div, div_lt_iff₀ hden]
    exact_mod_cast Nat.lt_mul_of_div_lt (Nat.lt_succ_self _) hdenominator
  constructor
  · rw [hleading, zpow_sub₀ (by norm_num), div_le_iff₀ hunit]
    exact hone.trans hfloor
  · have hsucc : n + 1 ≤ tenPow (count + 1) := by
      have hlt : n < tenPow (count + 1) :=
        (Nat.length_toDigits_le_iff (by decide) (Nat.succ_pos count)).mp (Nat.le_of_eq hcount)
      exact hlt
    have hsucc' : (n : ℚ) + 1 ≤ 10 ^ ((count + 1 : Nat) : ℤ) := by
      rw [← tenPow_cast]
      exact_mod_cast hsucc
    have hplace : i.leadingExponent + 1 = ((count + 1 : Nat) : ℤ) - (340 : Nat) := by
      rw [hleading]
      push_cast
      ring
    rw [hplace, zpow_sub₀ (by norm_num), lt_div_iff₀ hunit]
    exact hnext.trans_le hsucc'

/-! ## Neighbours with few digits -/

/-- The exponent of the last one of `count` digits. -/
def place (i : RoundingInterval) (count : Nat) : ℤ := i.leadingExponent - (count - 1 : Nat)

/-- The first `count` digits of a number. -/
def firstDigits (i : RoundingInterval) (count : Nat) : Nat :=
  i.value * tenPow (-i.place count).toNat / (i.denominator * tenPow (i.place count).toNat)

/-- The neighbour with `count` digits that is not above a number. -/
def below (i : RoundingInterval) (count : Nat) : DecimalDigits :=
  ⟨i.firstDigits count, i.place count⟩

/-- The neighbour with `count` digits that is above a number. -/
def above (i : RoundingInterval) (count : Nat) : DecimalDigits :=
  if i.firstDigits count + 1 = tenPow count then ⟨tenPow (count - 1), i.place count + 1⟩
  else ⟨i.firstDigits count + 1, i.place count⟩

theorem toRat_above {count : Nat} (hcount : 0 < count) :
    (i.above count).toRat = (i.firstDigits count + 1) * (10 : ℚ) ^ i.place count := by
  unfold above
  split
  · next hlast =>
    obtain ⟨n, rfl⟩ : ∃ n, count = n + 1 := Nat.exists_eq_add_one.mpr hcount
    have hlast' : (i.firstDigits (n + 1) : ℚ) + 1 = tenPow n * 10 := by
      rw [tenPow_succ] at hlast
      exact_mod_cast hlast
    rw [DecimalDigits.toRat, hlast', Nat.add_sub_cancel, zpow_add_one₀ (by norm_num)]
    ring
  · rw [DecimalDigits.toRat]
    push_cast
    rfl

/-- A number lies between its neighbours. -/
theorem between_neighbours (hdenominator : 0 < i.denominator) (count : Nat) :
    i.firstDigits count * (10 : ℚ) ^ i.place count ≤ i.number ∧
      i.number < (i.firstDigits count + 1) * (10 : ℚ) ^ i.place count := by
  have hden : (0 : ℚ) < i.denominator := Nat.cast_pos.mpr hdenominator
  have hup := tenPow_cast_pos (-i.place count).toNat
  have hdivisor : 0 < i.denominator * tenPow (i.place count).toNat :=
    Nat.mul_pos hdenominator (tenPow_pos _)
  rw [number, ← tenPow_toNat_div, ← mul_div_assoc, ← mul_div_assoc, div_le_div_iff₀ hup hden,
    div_lt_div_iff₀ hden hup]
  constructor
  · have hle := Nat.div_mul_le_self (i.value * tenPow (-i.place count).toNat)
      (i.denominator * tenPow (i.place count).toNat)
    have hle' : i.firstDigits count * tenPow (i.place count).toNat * i.denominator ≤
        i.value * tenPow (-i.place count).toNat := by
      rw [Nat.mul_assoc, Nat.mul_comm (tenPow _)]
      exact hle
    exact_mod_cast hle'
  · have hlt := Nat.lt_mul_of_div_lt (Nat.lt_succ_self (i.firstDigits count)) hdivisor
    have hlt' : i.value * tenPow (-i.place count).toNat <
        (i.firstDigits count + 1) * tenPow (i.place count).toNat * i.denominator := by
      rw [Nat.mul_assoc, Nat.mul_comm (tenPow (i.place count).toNat)]
      exact hlt
    exact_mod_cast hlt'

/-- The first digits of a number are as many as they should be. -/
theorem firstDigits_bounds (hdenominator : 0 < i.denominator)
    (hlarge : i.denominator ≤ i.value * tenPow 340) {count : Nat} (hcount : 0 < count) :
    tenPow (count - 1) ≤ i.firstDigits count ∧ i.firstDigits count < tenPow count := by
  obtain ⟨hlow, hhigh⟩ := leadingExponent_bounds hdenominator hlarge
  obtain ⟨hle, hlt⟩ := i.between_neighbours hdenominator count
  have hplace : (0 : ℚ) < 10 ^ i.place count := zpow_pos (by norm_num) _
  have hleading : i.leadingExponent = ((count - 1 : Nat) : ℤ) + i.place count := by
    unfold place
    omega
  have hnext : i.leadingExponent + 1 = (count : ℤ) + i.place count := by
    unfold place
    omega
  rw [hleading, zpow_add₀ (by norm_num), ← tenPow_cast] at hlow
  rw [hnext, zpow_add₀ (by norm_num), ← tenPow_cast] at hhigh
  constructor
  · have h : (tenPow (count - 1) : ℚ) < i.firstDigits count + 1 :=
      lt_of_mul_lt_mul_right (hlow.trans_lt hlt) hplace.le
    exact Nat.le_of_lt_succ (by exact_mod_cast h)
  · have h : (i.firstDigits count : ℚ) < tenPow count :=
      lt_of_mul_lt_mul_right (hle.trans_lt hhigh) hplace.le
    exact_mod_cast h

/-- Both neighbours have the digits that they should have. -/
theorem digits_neighbours (hdenominator : 0 < i.denominator)
    (hlarge : i.denominator ≤ i.value * tenPow 340) {count : Nat} (hcount : 0 < count) :
    (0 < (i.below count).digits ∧ (i.below count).digits < tenPow count) ∧
      (0 < (i.above count).digits ∧ (i.above count).digits < tenPow count) := by
  obtain ⟨hlow, hhigh⟩ := firstDigits_bounds hdenominator hlarge hcount
  have hpos := Nat.lt_of_lt_of_le (tenPow_pos (count - 1)) hlow
  refine ⟨⟨hpos, hhigh⟩, ?_⟩
  unfold above
  split
  · refine ⟨tenPow_pos _, ?_⟩
    show tenPow (count - 1) < tenPow count
    omega
  · refine ⟨Nat.succ_pos _, ?_⟩
    show i.firstDigits count + 1 < tenPow count
    omega

/-- A candidate is one of the neighbours, and lies in the interval. -/
theorem candidate?_cases {count : Nat} {d : DecimalDigits} (h : i.candidate? count = some d) :
    i.holds d = true ∧ (d = i.below count ∨ d = i.above count) := by
  unfold candidate? at h
  dsimp only at h
  split at h
  · next hbelow habove =>
    split at h
    · exact Option.some.inj h ▸ ⟨hbelow, Or.inl rfl⟩
    · exact Option.some.inj h ▸ ⟨habove, Or.inr rfl⟩
  · next hbelow _ => exact Option.some.inj h ▸ ⟨hbelow, Or.inl rfl⟩
  · next habove => exact Option.some.inj h ▸ ⟨habove, Or.inr rfl⟩
  · contradiction

/-- There is no candidate only if no neighbour lies in the interval. -/
theorem candidate?_isSome {count : Nat}
    (h : i.holds (i.below count) = true ∨ i.holds (i.above count) = true) :
    (i.candidate? count).isSome = true := by
  unfold candidate?
  dsimp only
  split
  · rfl
  · rfl
  · rfl
  · next hbelow habove =>
    rcases h with h | h
    · exact absurd h (Bool.eq_false_iff.mp hbelow)
    · exact absurd h (Bool.eq_false_iff.mp habove)

/-! ## Narrow intervals -/

/-- An interval that is narrower than the fifteenth digit of its number. -/
structure Narrow (i : RoundingInterval) : Prop where
  low_le : i.low ≤ i.number
  le_high : i.number ≤ i.high
  width : (i.high - i.low) * 10 ^ (15 : ℤ) < i.number

variable {q : ℚ}

theorem Holds.bounds (h : i.Holds q) : i.low ≤ q ∧ q ≤ i.high := by
  unfold Holds at h
  split at h
  · exact h
  · exact ⟨h.1.le, h.2.le⟩

/-- A narrow interval is narrower than a step of the fifteenth digit. -/
theorem Narrow.width_lt (h : i.Narrow) (hdenominator : 0 < i.denominator)
    (hlarge : i.denominator ≤ i.value * tenPow 340) :
    i.high - i.low < (10 : ℚ) ^ i.place 15 := by
  have hplace : i.leadingExponent + 1 = i.place 15 + 15 := by
    unfold place
    omega
  have hlt : (i.high - i.low) * 10 ^ (15 : ℤ) < 10 ^ i.place 15 * 10 ^ (15 : ℤ) := by
    rw [← zpow_add₀ (by norm_num), ← hplace]
    exact h.width.trans (leadingExponent_bounds hdenominator hlarge).2
  exact lt_of_mul_lt_mul_right hlt (zpow_pos (by norm_num) 15).le

/-- Numbers of fifteen digits that a narrow interval holds are whole steps of the fifteenth
digit. -/
theorem Narrow.exists_steps (h : i.Narrow) (hdenominator : 0 < i.denominator)
    (hlarge : i.denominator ≤ i.value * tenPow 340) {digits : Nat} {exponent : ℤ}
    (hdigits : digits < tenPow 15) (hholds : i.Holds (digits * (10 : ℚ) ^ exponent)) :
    ∃ steps : Nat, digits * (10 : ℚ) ^ exponent = steps * 10 ^ i.place 15 := by
  have hplace : i.leadingExponent = i.place 15 + 14 := by
    unfold place
    omega
  by_cases hexponent : i.place 15 ≤ exponent
  · refine ⟨digits * tenPow (exponent - i.place 15).toNat, ?_⟩
    have hsplit : exponent = ((exponent - i.place 15).toNat : ℤ) + i.place 15 := by omega
    rw [Nat.cast_mul, tenPow_cast, mul_assoc, ← zpow_add₀ (by norm_num), ← hsplit]
  · -- smaller steps reach at most the last number of fifteen digits below the first digit's place,
    -- and the interval begins above that number
    exfalso
    have hstep : (0 : ℚ) < 10 ^ (i.place 15 - 1) := zpow_pos (by norm_num) _
    have hleading : (10 : ℚ) ^ i.leadingExponent = 10 ^ (15 : ℤ) * 10 ^ (i.place 15 - 1) := by
      rw [← zpow_add₀ (by norm_num), hplace]
      congr 1
      ring
    have hdigits' : (digits : ℚ) + 1 ≤ 10 ^ (15 : ℤ) := by exact_mod_cast hdigits
    have hsmall : (10 : ℚ) ^ exponent ≤ 10 ^ (i.place 15 - 1) :=
      zpow_le_zpow_right₀ (by norm_num) (by omega)
    have hupper : digits * (10 : ℚ) ^ exponent ≤ (10 ^ (15 : ℤ) - 1) * 10 ^ (i.place 15 - 1) :=
      calc digits * (10 : ℚ) ^ exponent ≤ digits * 10 ^ (i.place 15 - 1) :=
            mul_le_mul_of_nonneg_left hsmall (Nat.cast_nonneg _)
        _ ≤ (10 ^ (15 : ℤ) - 1) * 10 ^ (i.place 15 - 1) :=
            mul_le_mul_of_nonneg_right (by linarith) hstep.le
    have hlow := hholds.bounds.1.trans hupper
    have hnumber := (leadingExponent_bounds hdenominator hlarge).1
    rw [hleading] at hnumber
    have hhigh := h.le_high
    have hwidth := h.width
    norm_num at hlow hnumber hwidth
    nlinarith

/-- Candidates of at most fifteen digits are whole steps of the fifteenth digit. -/
theorem exists_steps_candidate {count : Nat} (hcount : 0 < count) (hfifteen : count ≤ 15)
    {d : DecimalDigits} (h : i.candidate? count = some d) :
    ∃ steps : Nat, d.toRat = steps * (10 : ℚ) ^ i.place 15 := by
  have hplace : i.place count = ((15 - count : Nat) : ℤ) + i.place 15 := by
    unfold place
    omega
  have hsteps (digits : Nat) : (digits : ℚ) * 10 ^ i.place count =
      (digits * tenPow (15 - count) : Nat) * 10 ^ i.place 15 := by
    rw [hplace, zpow_add₀ (by norm_num), ← tenPow_cast, Nat.cast_mul, mul_assoc]
  rcases (candidate?_cases h).2 with rfl | rfl
  · exact ⟨_, hsteps _⟩
  · refine ⟨(i.firstDigits count + 1) * tenPow (15 - count), ?_⟩
    rw [toRat_above hcount, ← hsteps, Nat.cast_add, Nat.cast_one]

/-- Two whole steps that a narrow interval holds are the same. -/
theorem Narrow.steps_unique (h : i.Narrow) (hdenominator : 0 < i.denominator)
    (hlarge : i.denominator ≤ i.value * tenPow 340) {m n : Nat}
    (hm : i.Holds (m * 10 ^ i.place 15)) (hn : i.Holds (n * 10 ^ i.place 15)) : m = n := by
  have hstep : (0 : ℚ) < 10 ^ i.place 15 := zpow_pos (by norm_num) _
  have hwidth := h.width_lt hdenominator hlarge
  obtain ⟨hmlow, hmhigh⟩ := hm.bounds
  obtain ⟨hnlow, hnhigh⟩ := hn.bounds
  have hle (a b : Nat) (hlow : i.low ≤ a * 10 ^ i.place 15)
      (hhigh : b * 10 ^ i.place 15 ≤ i.high) : b ≤ a := by
    have hlt : ((b : ℚ)) * 10 ^ i.place 15 < (a + 1) * 10 ^ i.place 15 := by
      rw [add_mul, one_mul]
      linarith
    have hlt' : (b : ℚ) < a + 1 := lt_of_mul_lt_mul_right hlt hstep.le
    exact Nat.le_of_lt_succ (by exact_mod_cast hlt')
  exact Nat.le_antisymm (hle n m hnlow hmhigh) (hle m n hmlow hnhigh)

/-- If a narrow interval holds a whole step of the fifteenth digit, there is a candidate of fifteen
digits. -/
theorem Narrow.candidate?_isSome (h : i.Narrow) (hdenominator : 0 < i.denominator)
    (hlarge : i.denominator ≤ i.value * tenPow 340) {m : Nat}
    (hm : i.Holds (m * 10 ^ i.place 15)) : (i.candidate? 15).isSome = true := by
  have hstep : (0 : ℚ) < 10 ^ i.place 15 := zpow_pos (by norm_num) _
  have hwidth := h.width_lt hdenominator hlarge
  obtain ⟨hlow, hhigh⟩ := hm.bounds
  obtain ⟨hbelow, habove⟩ := i.between_neighbours hdenominator 15
  have hlow' := h.low_le
  have hhigh' := h.le_high
  have hle : i.firstDigits 15 ≤ m := by
    have hlt : (i.firstDigits 15 : ℚ) * 10 ^ i.place 15 < (m + 1) * 10 ^ i.place 15 := by
      rw [add_mul, one_mul]
      linarith
    have hlt' := lt_of_mul_lt_mul_right hlt hstep.le
    exact Nat.le_of_lt_succ (by exact_mod_cast hlt')
  have hge : m ≤ i.firstDigits 15 + 1 := by
    have hlt : (m : ℚ) * 10 ^ i.place 15 < (i.firstDigits 15 + 1 + 1) * 10 ^ i.place 15 := by
      rw [add_mul, one_mul]
      linarith
    have hlt' := lt_of_mul_lt_mul_right hlt hstep.le
    exact Nat.le_of_lt_succ (by exact_mod_cast hlt')
  refine RoundingInterval.candidate?_isSome ?_
  rw [holds_iff hdenominator, holds_iff hdenominator, toRat_above (by decide)]
  rcases Nat.eq_or_lt_of_le hle with heq | hlt
  · left
    rwa [← heq] at hm
  · right
    have heq : m = i.firstDigits 15 + 1 := by omega
    rw [heq, Nat.cast_add, Nat.cast_one] at hm
    exact hm

end RoundingInterval

/-! ## Doubles -/

theorem twoPow_cast (n : Nat) : ((twoPow n : Nat) : ℚ) = (2 : ℚ) ^ (n : ℤ) := by
  show ((2 ^ n : Nat) : ℚ) = _
  rw [Nat.cast_pow, zpow_natCast]
  rfl

theorem twoPow_pos (n : Nat) : 0 < twoPow n := Nat.pow_pos (by decide)

theorem twoPow_le_twoPow {m n : Nat} (h : m ≤ n) : twoPow m ≤ twoPow n :=
  Nat.pow_le_pow_right (by decide) h

namespace BinaryParts

variable {p : BinaryParts}

theorem denominator_pos (p : BinaryParts) : 0 < (RoundingInterval.ofParts p).denominator :=
  twoPow_pos _

/-- No double but zero is too small for its first digit to be found. -/
theorem denominator_le (hpos : 0 < p.significand) (hexponent : -1074 ≤ p.exponent) :
    (RoundingInterval.ofParts p).denominator ≤
      (RoundingInterval.ofParts p).value * tenPow 340 := by
  have hpower : (-(p.exponent - 2)).toNat ≤ 1076 := by omega
  calc twoPow (-(p.exponent - 2)).toNat ≤ twoPow 1076 := twoPow_le_twoPow hpower
    _ ≤ 4 * tenPow 340 := by decide +kernel
    _ ≤ 4 * p.significand * twoPow (p.exponent - 2).toNat * tenPow 340 := by
      refine Nat.mul_le_mul_right _ ?_
      calc 4 ≤ 4 * p.significand := Nat.le_mul_of_pos_right 4 hpos
        _ ≤ 4 * p.significand * twoPow (p.exponent - 2).toNat :=
          Nat.le_mul_of_pos_right _ (twoPow_pos _)

/-- The shortest digits are a candidate, or there is none. -/
theorem shortestDigits_cases (p : BinaryParts) :
    shortestDigits p = ⟨0, 0⟩ ∨ 0 < p.significand ∧ ∃ count < 17,
      (RoundingInterval.ofParts p).candidate? (count + 1) = some (shortestDigits p) := by
  unfold shortestDigits
  split
  · exact Or.inl rfl
  · next hsignificand =>
    dsimp only
    cases hfound : (List.range 17).findSome?
        fun k => (RoundingInterval.ofParts p).candidate? (k + 1) with
    | none => exact Or.inl rfl
    | some d =>
      obtain ⟨count, hcount, hcandidate⟩ := List.exists_of_findSome?_eq_some hfound
      exact Or.inr ⟨Nat.pos_of_ne_zero hsignificand, count, List.mem_range.mp hcount, hcandidate⟩

/-- There are at most seventeen shortest digits, and the digits of zero have no exponent. -/
theorem shortestDigits_bounds (hexponent : -1074 ≤ p.exponent) :
    (shortestDigits p).digits < tenPow 17 ∧
      ((shortestDigits p).digits = 0 → (shortestDigits p).exponent = 0) := by
  rcases p.shortestDigits_cases with hzero | ⟨hpos, count, hcount, hcandidate⟩
  · rw [hzero]
    exact ⟨tenPow_pos 17, fun _ => rfl⟩
  · obtain ⟨hbelow, habove⟩ := RoundingInterval.digits_neighbours p.denominator_pos
      (denominator_le hpos hexponent) (Nat.succ_pos count)
    have hlimit : tenPow (count + 1) ≤ tenPow 17 := Nat.pow_le_pow_right (by decide) hcount
    rcases (RoundingInterval.candidate?_cases hcandidate).2 with heq | heq
    · rw [heq]
      exact ⟨Nat.lt_of_lt_of_le hbelow.2 hlimit, fun h => absurd h hbelow.1.ne'⟩
    · rw [heq]
      exact ⟨Nat.lt_of_lt_of_le habove.2 hlimit, fun h => absurd h habove.1.ne'⟩

/-- The number that the shortest digits of a double stand for. -/
def shortestValue (p : BinaryParts) : ℚ :=
  if p.negative then -(shortestDigits p).toRat else (shortestDigits p).toRat

/-- The exponents of doubles are bounded below. -/
theorem le_exponent {x : Float} (h : ofFloat? x = some p) : -1074 ≤ p.exponent := by
  unfold ofFloat? at h
  dsimp only at h
  split at h
  · contradiction
  · split at h
    · cases h
      exact le_refl _
    · cases h
      show (-1074 : ℤ) ≤ _ - 1075
      omega

/-! ## The interval around a double -/

/-- How far the interval around a double reaches down, in quarters of the significand's unit. -/
def lowerQuarters (p : BinaryParts) : Nat :=
  if p.significand = twoPow 52 ∧ -1074 < p.exponent then 1 else 2

theorem lowerQuarters_bounds (p : BinaryParts) : 1 ≤ p.lowerQuarters ∧ p.lowerQuarters ≤ 2 := by
  unfold lowerQuarters
  split <;> omega

/-- The interval around a double is measured in quarters of its significand's unit. -/
theorem div_denominator (p : BinaryParts) (n : Nat) :
    ((n * twoPow (p.exponent - 2).toNat : Nat) : ℚ) / (RoundingInterval.ofParts p).denominator =
      n * (2 : ℚ) ^ (p.exponent - 2) := by
  show ((n * twoPow (p.exponent - 2).toNat : Nat) : ℚ) / twoPow (-(p.exponent - 2)).toNat = _
  rw [Nat.cast_mul, mul_div_assoc, twoPow_cast, twoPow_cast, ← zpow_sub₀ (by norm_num)]
  congr 2
  omega

theorem number_ofParts (p : BinaryParts) :
    (RoundingInterval.ofParts p).number = 4 * p.significand * (2 : ℚ) ^ (p.exponent - 2) := by
  refine (p.div_denominator (4 * p.significand)).trans ?_
  rw [Nat.cast_mul]
  rfl

theorem high_ofParts (p : BinaryParts) :
    (RoundingInterval.ofParts p).high = (4 * p.significand + 2) * (2 : ℚ) ^ (p.exponent - 2) := by
  refine (p.div_denominator (4 * p.significand + 2)).trans ?_
  rw [Nat.cast_add, Nat.cast_mul]
  rfl

theorem low_ofParts (hpos : 0 < p.significand) : (RoundingInterval.ofParts p).low =
    (4 * p.significand - p.lowerQuarters) * (2 : ℚ) ^ (p.exponent - 2) := by
  have hle : p.lowerQuarters ≤ 4 * p.significand := by
    have := p.lowerQuarters_bounds
    omega
  refine (p.div_denominator (4 * p.significand - p.lowerQuarters)).trans ?_
  rw [Nat.cast_sub hle, Nat.cast_mul]
  rfl

/-- With all bits of its significand, a double has an interval that is narrower than its fifteenth
digit. -/
theorem narrow_ofParts (hfull : twoPow 52 ≤ p.significand) :
    (RoundingInterval.ofParts p).Narrow := by
  have hpos : 0 < p.significand := Nat.lt_of_lt_of_le (twoPow_pos 52) hfull
  have hunit : (0 : ℚ) < 2 ^ (p.exponent - 2) := zpow_pos (by norm_num) _
  have hquarters := p.lowerQuarters_bounds
  have hlower : (1 : ℚ) ≤ p.lowerQuarters := by exact_mod_cast hquarters.1
  have hupper : (p.lowerQuarters : ℚ) ≤ 2 := by exact_mod_cast hquarters.2
  have hfifteen : (10 : ℚ) ^ (15 : ℤ) = 1000000000000000 := by norm_num
  have hdigits : (1000000000000000 : ℚ) < p.significand := by
    have hlt : 1000000000000000 < p.significand := Nat.lt_of_lt_of_le (by decide +kernel) hfull
    exact_mod_cast hlt
  refine ⟨?_, ?_, ?_⟩
  · rw [low_ofParts hpos, number_ofParts]
    exact mul_le_mul_of_nonneg_right (by linarith) hunit.le
  · rw [high_ofParts, number_ofParts]
    exact mul_le_mul_of_nonneg_right (by linarith) hunit.le
  · rw [high_ofParts, low_ofParts hpos, number_ofParts, ← sub_mul, mul_right_comm]
    refine mul_lt_mul_of_pos_right ?_ hunit
    rw [hfifteen]
    linarith

/-- **Fifteen digits survive.** Where a number of at most fifteen digits rounds to a double that has
all bits of its significand, the shortest digits of the double stand for that number again. -/
theorem toRat_shortestDigits (hfull : twoPow 52 ≤ p.significand) (hexponent : -1074 ≤ p.exponent)
    {digits : Nat} {exponent : ℤ} (hdigits : digits < tenPow 15)
    (hholds : (RoundingInterval.ofParts p).Holds (digits * (10 : ℚ) ^ exponent)) :
    (shortestDigits p).toRat = digits * (10 : ℚ) ^ exponent := by
  have hpos : 0 < p.significand := Nat.lt_of_lt_of_le (twoPow_pos 52) hfull
  have hdenominator := p.denominator_pos
  have hlarge := denominator_le hpos hexponent
  have hnarrow := narrow_ofParts hfull
  obtain ⟨m, hm⟩ := hnarrow.exists_steps hdenominator hlarge hdigits hholds
  rw [hm] at hholds ⊢
  -- some number of at most fifteen digits is a candidate, and so the search ends with one
  have hfifteen : ((List.range 15).findSome?
      fun k => (RoundingInterval.ofParts p).candidate? (k + 1)).isSome = true :=
    List.findSome?_isSome_iff.mpr ⟨14, List.mem_range.mpr (by decide),
      hnarrow.candidate?_isSome hdenominator hlarge hholds⟩
  obtain ⟨d, hd⟩ := Option.isSome_iff_exists.mp hfifteen
  have hshortest : shortestDigits p = d := by
    unfold shortestDigits
    rw [if_neg (Nat.pos_iff_ne_zero.mp hpos)]
    have hrange : List.range 17 = List.range 15 ++ [15, 16] := rfl
    dsimp only
    rw [hrange, List.findSome?_append, hd, Option.some_or, Option.getD_some]
  obtain ⟨count, hcount, hcandidate⟩ := List.exists_of_findSome?_eq_some hd
  obtain ⟨n, hn⟩ := RoundingInterval.exists_steps_candidate (Nat.succ_pos count)
    (List.mem_range.mp hcount) hcandidate
  have hin := (RoundingInterval.holds_iff hdenominator d).mp
    (RoundingInterval.candidate?_cases hcandidate).1
  rw [hn] at hin
  rw [hshortest, hn, hnarrow.steps_unique hdenominator hlarge hin hholds]

end BinaryParts

end Tariff
