/-
# The parts of a binary floating-point number

A finite double is a sign, a whole number below `2 ^ 53` and a power of two. All exact work
on doubles, such as finding their shortest decimal digits, goes through these parts.
-/
import Tariff.Power

namespace Tariff

/-- The number `± significand * 2 ^ exponent`. -/
structure BinaryParts where
  negative : Bool
  significand : Nat
  exponent : Int
  deriving DecidableEq

/-- The parts of a double; infinities and NaN have none. -/
def BinaryParts.ofFloat? (x : Float) : Option BinaryParts :=
  let bits : Nat := x.toBits.toNat
  let biased : Nat := bits / twoPow 52 % twoPow 11
  let fraction : Nat := bits % twoPow 52
  let negative := bits / twoPow 63 == 1
  if biased = 2047 then none
  else if biased = 0 then some ⟨negative, fraction, -1074⟩
  else some ⟨negative, fraction + twoPow 52, (biased : Int) - 1075⟩

end Tariff
