/-
# Rounding

Rounding of quotients half to even, and with it the three roundings of a decimal to a whole
number. A whole number is returned as it is, whatever its scale says about its sign.
-/
import Tariff.Decimal.Basic

namespace Tariff

/-- The whole number nearest to `n / d`; of two equally near ones, the even one. -/
def halfEven (n d : Nat) : Nat :=
  let quotient := n / d
  let rest := n % d
  if d < 2 * rest ∨ (2 * rest = d ∧ quotient % 2 = 1) then quotient + 1 else quotient

theorem halfEven_le (n d : Nat) : halfEven n d ≤ n / d + 1 := by
  unfold halfEven
  dsimp only
  split <;> omega

namespace Decimal

/-- Dropping at least one digit leaves room for one more unit. -/
theorem coefficient_div_succ_lt (a : Decimal) (h : a.scale ≠ 0) :
    a.coefficient / tenPow a.scale + 1 < limit := by
  have hle : a.coefficient / tenPow a.scale ≤ a.coefficient / 10 :=
    Nat.div_le_div_left (ten_le_tenPow h) (by decide)
  have hlt := a.coefficient_lt
  unfold limit at *
  omega

/-- The nearest whole number, ties to even. -/
def round (a : Decimal) : Decimal :=
  if h : a.scale = 0 then a
  else if a.coefficient = 0 then { zero with negative := a.negative }
  else
    let coefficient := halfEven a.coefficient (tenPow a.scale)
    whole (a.negative && coefficient != 0) coefficient
      (Nat.lt_of_le_of_lt (halfEven_le _ _) (coefficient_div_succ_lt a h))

/-- The whole number next to `a` toward zero, or the one beyond it if `away` asks for it and
`a` is not whole. The sign is that of `a`. -/
def wholeToward (a : Decimal) (away : Bool) : Decimal :=
  if h : a.scale = 0 then a
  else if away && a.coefficient % tenPow a.scale != 0 then
    whole a.negative (a.coefficient / tenPow a.scale + 1) (coefficient_div_succ_lt a h)
  else
    whole a.negative (a.coefficient / tenPow a.scale)
      (Nat.lt_of_succ_lt (coefficient_div_succ_lt a h))

/-- The greatest whole number that is not above `a`. -/
def floor (a : Decimal) : Decimal := a.wholeToward a.negative

/-- The least whole number that is not below `a`; that of `-0.5` is `-0`. -/
def ceiling (a : Decimal) : Decimal := a.wholeToward !a.negative

end Decimal

end Tariff
