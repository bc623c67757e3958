/-
# Quotients

Long division. The whole part of the quotient of the coefficients is extended by up to nine
digits a round, as long as a rest is left and the digits fit; the last digit is rounded half
to even. Zeros that the extension produced at the end are taken off again.
-/
import Tariff.Decimal.Rounding

namespace Tariff

namespace Decimal

/-- A quotient in the making: its digits so far, the rest of the division, the number of its
digits behind the point (negative while digits before it are missing) and whether the
division was ever inexact. -/
structure PartialQuotient where
  digits : Nat
  rest : Nat
  scale : Int
  inexact : Bool

/-- Takes the last digit off a quotient that outgrew the limit, half to even, where `sticky`
tells that digits were lost before. -/
def dropDigit? (digits : Nat) (scale : Int) (sticky : Bool) (inexact : Bool) :
    Option PartialQuotient :=
  if scale < 1 then none
  else
    let kept := digits / 10
    let last := digits % 10
    let up := decide (5 < last) || (last == 5 && (sticky || kept % 2 == 1))
    some ⟨if up then kept + 1 else kept, 0, scale - 1, inexact⟩

/-- The number of digits by which a quotient that has a rest is extended in one round. -/
def extensionDigits (q : PartialQuotient) : Nat :=
  ((List.range (Nat.min 9 (28 - q.scale).toNat)).takeWhile fun k =>
    decide (q.digits * tenPow (k + 1) < limit)).length

/-- Extends the quotient until no rest is left or no further digit fits. Each round that goes
on adds at least one digit, so `29 - scale` rounds suffice. -/
def extend? (divisor : Nat) : Nat → PartialQuotient → Option PartialQuotient
  | 0, _ => none
  | rounds + 1, q =>
    if q.rest = 0 ∧ 0 ≤ q.scale then some q
    else
      let inexact := q.inexact || q.rest != 0
      let count := if q.rest = 0 then Nat.min 9 (-q.scale).toNat else extensionDigits q
      if q.rest ≠ 0 ∧ count < 9 ∧ (count : Int) + q.scale < 0 then none
      else if count = 0 then
        let up := decide (divisor < 2 * q.rest) ||
          (2 * q.rest == divisor && q.digits % 2 == 1)
        let digits := if up then q.digits + 1 else q.digits
        if digits < limit then some ⟨digits, 0, q.scale, inexact⟩
        else dropDigit? digits q.scale true inexact
      else
        let scale := q.scale + count
        let shifted := q.digits * tenPow count
        if limit ≤ shifted then none
        else
          let rest := q.rest * tenPow count
          let digits := shifted + rest / divisor
          if digits < limit then extend? divisor rounds ⟨digits, rest % divisor, scale, inexact⟩
          else dropDigit? digits scale (rest % divisor != 0) inexact

/-- Takes `count` zeros off the end, if that many are there behind the point and the binary
form of the digits ends in zeros as well. -/
def trimZeros (count : Nat) (binaryZeros : Nat) (parts : Nat × Nat) : Nat × Nat :=
  if parts.1 % twoPow binaryZeros = 0 ∧ count ≤ parts.2 ∧ parts.1 % tenPow count = 0 then
    (parts.1 / tenPow count, parts.2 - count)
  else
    parts

/-- Takes off the zeros at the end of an extended quotient. -/
def trimQuotient (digits scale : Nat) : Nat × Nat :=
  let eights := trimZeros 8 32 (trimZeros 8 32 (trimZeros 8 32 (digits, scale)))
  trimZeros 1 1 (trimZeros 2 2 (trimZeros 4 4 eights))

/-- The quotient; a zero divisor has none. -/
def div? (a b : Decimal) : Option Decimal :=
  if b.isZero then none
  else if a.isZero then some zero
  else do
    let scale : Int := (a.scale : Int) - b.scale
    let start : PartialQuotient :=
      ⟨a.coefficient / b.coefficient, a.coefficient % b.coefficient, scale, false⟩
    let q ← extend? b.coefficient (29 - scale).toNat start
    let parts := if q.inexact then trimQuotient q.digits q.scale.toNat else (q.digits, q.scale.toNat)
    ofMagnitude? (a.negative != b.negative) parts.1 parts.2

end Decimal

end Tariff
