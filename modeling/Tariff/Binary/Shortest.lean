/-
# The shortest decimal digits of a double

Among the decimal numbers that a reader would round to a given double, those with the fewest
digits are found, and of these the one nearest to the double. Two layouts write it down: one
that never uses an exponent, and one that does so for very large and very small numbers.
-/
import Tariff.Binary.Parts

namespace Tariff

/-- The number `digits * 10 ^ exponent`. -/
structure DecimalDigits where
  digits : Nat
  exponent : Int
  deriving DecidableEq

/-- An interval of reals over one denominator, with the number that it surrounds. Its ends
belong to it if `closed` says so. -/
structure RoundingInterval where
  lower : Nat
  value : Nat
  upper : Nat
  denominator : Nat
  closed : Bool

namespace RoundingInterval

/-- The reals that round to `significand * 2 ^ exponent`: half a unit to both sides, and a
quarter below a power of two, where the units become smaller. A tie goes to the even
significand. -/
def ofParts (p : BinaryParts) : RoundingInterval :=
  let below := if p.significand = twoPow 52 ∧ -1074 < p.exponent then 1 else 2
  let power := p.exponent - 2
  let scale := twoPow power.toNat
  { lower := (4 * p.significand - below) * scale
    value := 4 * p.significand * scale
    upper := (4 * p.significand + 2) * scale
    denominator := twoPow (-power).toNat
    closed := p.significand % 2 == 0 }

/-- The exponent of the first decimal digit of the value. -/
def leadingExponent (i : RoundingInterval) : Int :=
  ((Nat.toDigits 10 (i.value * tenPow 340 / i.denominator)).length : Int) - 341

/-- Whether `digits * 10 ^ exponent` lies in the interval. -/
def holds (i : RoundingInterval) (d : DecimalDigits) : Bool :=
  let scaled := d.digits * tenPow d.exponent.toNat * i.denominator
  let unit := tenPow (-d.exponent).toNat
  if i.closed then decide (i.lower * unit ≤ scaled) && decide (scaled ≤ i.upper * unit)
  else decide (i.lower * unit < scaled) && decide (scaled < i.upper * unit)

/-- How far `digits * 10 ^ exponent` is from the value, in a unit that depends on the exponent
alone. -/
def distance (i : RoundingInterval) (d : DecimalDigits) : Nat :=
  let scaled := d.digits * tenPow d.exponent.toNat * i.denominator
  let value := i.value * tenPow (-d.exponent).toNat
  (scaled - value) + (value - scaled)

/-- The better one of the value's two neighbours among the numbers with `count` digits, if one
lies in the interval. -/
def candidate? (i : RoundingInterval) (count : Nat) : Option DecimalDigits :=
  let exponent := i.leadingExponent - (count - 1 : Nat)
  let digits := i.value * tenPow (-exponent).toNat / (i.denominator * tenPow exponent.toNat)
  let below : DecimalDigits := ⟨digits, exponent⟩
  let above : DecimalDigits :=
    if digits + 1 = tenPow count then ⟨tenPow (count - 1), exponent + 1⟩ else ⟨digits + 1, exponent⟩
  match i.holds below, i.holds above with
  | true, true =>
    let next : DecimalDigits := ⟨digits + 1, exponent⟩
    let nearer := i.distance below < i.distance next ∨
      (i.distance below = i.distance next ∧ digits % 2 = 0)
    some (if nearer then below else above)
  | true, false => some below
  | false, true => some above
  | false, false => none

end RoundingInterval

/-- The shortest decimal digits of a double given by its parts; seventeen always suffice. -/
def shortestDigits (p : BinaryParts) : DecimalDigits :=
  if p.significand = 0 then ⟨0, 0⟩
  else
    let interval := RoundingInterval.ofParts p
    ((List.range 17).findSome? fun k => interval.candidate? (k + 1)).getD ⟨0, 0⟩

/-- The digits as text, without an exponent: zeros fill up to the point, and a point stands
only where digits follow it. -/
def DecimalDigits.plain (d : DecimalDigits) : String :=
  let digits := Nat.toDigits 10 d.digits
  if 0 ≤ d.exponent then String.ofList (digits ++ List.replicate d.exponent.toNat '0')
  else
    let fraction := (-d.exponent).toNat
    let padded := List.replicate (fraction + 1 - digits.length) '0' ++ digits
    String.ofList (padded.take (padded.length - fraction) ++ '.' ::
      padded.drop (padded.length - fraction))

/-- The digits as text with an exponent: one digit before the point. -/
def DecimalDigits.scientific (d : DecimalDigits) : String :=
  let digits := Nat.toDigits 10 d.digits
  let exponent := d.exponent + digits.length - 1
  let fraction := digits.drop 1
  String.ofList (digits.take 1 ++ (if fraction.isEmpty then [] else '.' :: fraction)) ++
    "e" ++ (if exponent < 0 then "-" else "+") ++ toString exponent.natAbs

/-- A finite double as its shortest digits, without an exponent; `1.0` is written `1`. -/
def BinaryParts.plainText (p : BinaryParts) : String :=
  (if p.negative then "-" else "") ++ (shortestDigits p).plain

/-- A finite double as a number text: positional, with at least one digit behind the point, if
its first digit stands between `10 ^ -5` and `10 ^ 15`, and with an exponent otherwise. -/
def BinaryParts.numberText (p : BinaryParts) : String :=
  let d := shortestDigits p
  let leading := d.exponent + (Nat.toDigits 10 d.digits).length - 1
  let text :=
    if -5 ≤ leading ∧ leading ≤ 15 then
      if 0 ≤ d.exponent then d.plain ++ ".0" else d.plain
    else d.scientific
  (if p.negative then "-" else "") ++ text

end Tariff
