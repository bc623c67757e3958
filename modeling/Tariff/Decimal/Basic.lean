/-
# Decimals

A decimal is a sign, a coefficient below `2 ^ 96` and a scale of at most 28, and stands for
`± coefficient / 10 ^ scale`. Scale and trailing zeros belong to it, and so does the sign of
a zero: `1.50`, `1.5`, `0` and `-0` are four decimals, of which some are numerically equal.
-/
import Tariff.Power

namespace Tariff

/-- Coefficients stay below this bound, which is `2 ^ 96`. -/
abbrev Decimal.limit : Nat := 79228162514264337593543950336

/-- A decimal number with its sign, its digits and the number of digits after the point. -/
structure Decimal where
  negative : Bool
  coefficient : Nat
  scale : Nat
  coefficient_lt : coefficient < Decimal.limit
  scale_le : scale ≤ 28
  deriving DecidableEq

namespace Decimal

/-- The largest number of digits after the point. -/
def maxScale : Nat := 28

/-- The decimal with these parts, if they are within the bounds. -/
def ofParts? (negative : Bool) (coefficient scale : Nat) : Option Decimal :=
  if h : coefficient < limit ∧ scale ≤ 28 then
    some ⟨negative, coefficient, scale, h.1, h.2⟩
  else
    none

/-- As `ofParts?`, but a zero never takes a minus sign. -/
def ofMagnitude? (negative : Bool) (coefficient scale : Nat) : Option Decimal :=
  ofParts? (negative && coefficient != 0) coefficient scale

/-- A whole number of magnitude below `2 ^ 96`. -/
def ofInt? (i : Int) : Option Decimal := ofMagnitude? (i < 0) i.natAbs 0

/-- A whole number with a sign, with no digit after the point. -/
def whole (negative : Bool) (n : Nat) (h : n < limit) : Decimal := ⟨negative, n, 0, h, by decide⟩

/-- Zero, with no digit after the point. -/
def zero : Decimal := whole false 0 (by decide)

/-- One, with no digit after the point. -/
def one : Decimal := whole false 1 (by decide)

instance : Inhabited Decimal := ⟨zero⟩

/-- A zero of any scale and sign. -/
def isZero (a : Decimal) : Bool := a.coefficient == 0

/-- Strictly greater than zero. -/
def isPositive (a : Decimal) : Bool := !a.negative && a.coefficient != 0

/-- Strictly less than zero. -/
def isNegative (a : Decimal) : Bool := a.negative && a.coefficient != 0

/-- The coefficient with its sign. -/
def signed (a : Decimal) : Int := if a.negative then -a.coefficient else a.coefficient

/-- The signed coefficient that `a` has when it is written with `scale` digits after the
point; it stands for the same number whenever `a.scale ≤ scale`. -/
def signedAt (a : Decimal) (scale : Nat) : Int := a.signed * tenPow (scale - a.scale)

/-- Numeric comparison: scales and the signs of zeros do not count. -/
def compare (a b : Decimal) : Ordering :=
  let scale := max a.scale b.scale
  Ord.compare (a.signedAt scale) (b.signedAt scale)

/-- Numerically less. -/
def lt (a b : Decimal) : Bool := a.compare b == .lt

/-- Numerically equal. -/
def sameValue (a b : Decimal) : Bool := a.compare b == .eq

/-- Flips the sign, also that of a zero. -/
def neg (a : Decimal) : Decimal := { a with negative := !a.negative }

/-- Clears the sign. -/
def abs (a : Decimal) : Decimal := { a with negative := false }

/-- The smaller of two decimals, the first one where they are equal. -/
def min (a b : Decimal) : Decimal := if b.lt a then b else a

/-- The larger of two decimals, the first one where they are equal. -/
def max (a b : Decimal) : Decimal := if a.lt b then b else a

end Decimal

end Tariff
