/-
# Decimals and doubles

Powers and roots are taken on doubles, so decimals are converted there and back. Both ways
are fixed step by step, because each step rounds.
-/
import Tariff.Decimal.Rounding
import Tariff.Binary.Parts

namespace Tariff

namespace Decimal

/-! ## To a double -/

/-- The double nearest to a whole number. -/
def wholeToFloat (n : Nat) : Float := Float.ofScientific n false 0

/-- `result * base ^ exponent`, by squaring: the order of the products decides how they round. -/
def floatPower (result base : Float) (exponent : Nat) : Float :=
  let next := if exponent % 2 = 1 then result * base else result
  if _h : exponent < 2 then next else floatPower next (base * base) (exponent / 2)
termination_by exponent

/-- The nearest whole number, ties away from zero, for numbers that are not negative. -/
def roundAway (x : Float) : Float :=
  let whole := x.floor
  if x - whole >= 0.5 then whole + 1.0 else whole

/-- The double for the magnitude of a decimal: the whole part plus the fraction, rounded to the
decimal's own digits. -/
def magnitudeToFloat (a : Decimal) : Float :=
  let unit := tenPow a.scale
  let whole := wholeToFloat (a.coefficient / unit)
  let fraction := wholeToFloat (a.coefficient % unit) / wholeToFloat unit
  if fraction == 0.0 then whole
  else
    let power := floatPower 1.0 10.0 a.scale
    let scaled := (whole + fraction) * power
    roundAway scaled / power

/-- The double for a decimal. Zero without digits behind the point loses its sign. -/
def toFloat (a : Decimal) : Float :=
  if a.scale = 0 then
    if a.isNegative then -wholeToFloat a.coefficient else wholeToFloat a.coefficient
  else if a.negative then -a.magnitudeToFloat
  else a.magnitudeToFloat

/-! ## From a double -/

/-- The number `coefficient * 2 ^ (-fives) * 10 ^ tens` up to the bookkeeping of the steps
below: powers of five are multiplied in or divided out one at a time. -/
structure Scaled where
  coefficient : Nat
  tens : Int

namespace Scaled

/-- Turns `steps` negative powers of two into powers of ten, a factor of five each, or halves
where five does not fit. -/
def raiseFives : Nat → Scaled → Scaled
  | 0, s => s
  | steps + 1, s =>
    if s.coefficient % 2 = 0 then raiseFives steps ⟨s.coefficient / 2, s.tens + 1⟩
    else if s.coefficient * 5 < limit then raiseFives steps ⟨s.coefficient * 5, s.tens⟩
    else raiseFives steps ⟨s.coefficient / 2, s.tens + 1⟩

/-- Turns `steps` powers of two into powers of ten: doubles while there is room, and divides by
five afterwards. -/
def lowerFives : Nat → Scaled → Option Scaled
  | 0, s => some s
  | steps + 1, s =>
    if s.coefficient * 2 < limit then lowerFives steps ⟨s.coefficient * 2, s.tens - 1⟩
    else if ((steps + 1 : Nat) : Int) < s.tens * 2 then none
    else lowerFives steps ⟨s.coefficient / 5, s.tens⟩

/-- Multiplies the remaining powers of ten in. -/
def raiseTens : Nat → Scaled → Option Scaled
  | 0, s => some s
  | steps + 1, s =>
    if limit ≤ s.coefficient * 10 then none
    else raiseTens steps ⟨s.coefficient * 10, s.tens - 1⟩

/-- Drops digits until the scale is at most 28, rounding half up at each one. -/
def dropToScale : Nat → Scaled → Scaled
  | 0, s => s
  | steps + 1, s =>
    if s.coefficient / 10 = 0 then ⟨0, 0⟩
    else
      let up := if 5 ≤ s.coefficient % 10 then 1 else 0
      dropToScale steps ⟨s.coefficient / 10 + up, s.tens + 1⟩

/-- Drops digits that a double cannot hold: as long as the coefficient has more than 52 bits
and digits are left behind the point. -/
def dropExcess : Nat → Scaled → Scaled
  | 0, s => s
  | steps + 1, s =>
    if s.coefficient < twoPow 52 then s
    else
      let up := if 5 ≤ s.coefficient % 10 then 1 else 0
      dropExcess steps ⟨s.coefficient / 10 + up, s.tens + 1⟩

/-- Drops zeros behind the point. -/
def dropZeros : Nat → Scaled → Scaled
  | 0, s => s
  | steps + 1, s =>
    if s.coefficient % 10 = 0 then dropZeros steps ⟨s.coefficient / 10, s.tens + 1⟩ else s

end Scaled

/-- The decimal for a double, with the digits that a double is good for; infinities, NaN and
numbers beyond the bounds have none. -/
def ofFloat? (x : Float) : Option Decimal := do
  let parts ← BinaryParts.ofFloat? x
  if parts.significand = 0 then
    ofParts? parts.negative 0 0
  else
    let start : Scaled := ⟨parts.significand, parts.exponent⟩
    let fives ← ((start.raiseFives (-parts.exponent).toNat).lowerFives parts.exponent.toNat)
    let whole ← fives.raiseTens fives.tens.toNat
    let scaled := whole.dropToScale (-28 - whole.tens).toNat
    let short := scaled.dropExcess (-scaled.tens).toNat
    let bare := short.dropZeros (-short.tens).toNat
    ofParts? parts.negative bare.coefficient (-bare.tens).toNat

end Decimal

end Tariff
