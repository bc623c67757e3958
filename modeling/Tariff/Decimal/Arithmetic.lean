/-
# Sums and products

Addition, subtraction and multiplication are computed exactly on whole numbers and then made
to fit: as few digits as possible are dropped behind the point, with one rounding half to
even. A result too large for any scale has no decimal.
-/
import Tariff.Decimal.Rounding

namespace Tariff

namespace Decimal

/-- How many digits have to go so that `coefficient / 10 ^ scale` fits a decimal: the fewest
that leave a coefficient below the limit and no more than 28 digits behind the point. -/
def surplusDigits (coefficient scale : Nat) : Option Nat :=
  (List.range (scale + 1)).find? fun dropped =>
    decide (scale - dropped ≤ maxScale) && decide (coefficient / tenPow dropped < limit)

/-- The decimal nearest to `± coefficient / 10 ^ scale`, ties to even, with as many digits as
fit. If rounding itself reaches the limit, one more digit is dropped. -/
def fit? (negative : Bool) (coefficient scale : Nat) : Option Decimal := do
  let dropped ← surplusDigits coefficient scale
  let rounded := halfEven coefficient (tenPow dropped)
  if rounded < limit then
    ofParts? negative rounded (scale - dropped)
  else if scale = dropped then
    none
  else
    ofParts? negative (halfEven rounded 10) (scale - dropped - 1)

/-- A zero without a minus sign; all other decimals as they are. -/
def positiveZero (a : Decimal) : Decimal := { a with negative := a.negative && a.coefficient != 0 }

/-- The sum of two decimals neither of which is zero. -/
def addAligned? (a b : Decimal) : Option Decimal :=
  let scale := Nat.max a.scale b.scale
  let sum := a.signedAt scale + b.signedAt scale
  (fit? (sum < 0) sum.natAbs scale).map positiveZero

/-- The sum. A zero operand yields the other one unchanged, its scale and sign included. -/
def add? (a b : Decimal) : Option Decimal :=
  if a.isZero then some b
  else if b.isZero then some a
  else addAligned? a b

/-- The difference. Subtracting from zero flips the sign of what is subtracted, unless that is
zero too. -/
def sub? (a b : Decimal) : Option Decimal :=
  if a.isZero then some (if b.isZero then b else b.neg)
  else if b.isZero then some a
  else addAligned? a b.neg

/-- The product. A zero factor yields plain zero. Two coefficients below `2 ^ 32` whose
product has more than 47 digits behind the point yield plain zero as well, and their product
never is a negative zero; larger coefficients keep the sign even if all digits are dropped. -/
def mul? (a b : Decimal) : Option Decimal :=
  if a.isZero || b.isZero then some zero
  else
    let scale := a.scale + b.scale
    let small := decide (a.coefficient < twoPow 32) && decide (b.coefficient < twoPow 32)
    if small && decide (47 < scale) then some zero
    else
      let product := fit? (a.negative != b.negative) (a.coefficient * b.coefficient) scale
      if small then product.map positiveZero else product

end Decimal

end Tariff
