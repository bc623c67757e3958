/-
# Doubles from decimal numerals

A numeral stands for the double nearest to it. Numerals beyond the largest double stand for
infinity, and those far below the smallest for zero.
-/
import Tariff.Text.Digits

namespace Tariff

/-- The double nearest to the digits, of which the last `places` stand behind the point, times
a power of ten. -/
def floatOfDigits (negative : Bool) (digits : List Char) (places : Nat) (exponent : Int) :
    Float :=
  let significand := digitsValue digits
  let power := exponent - places
  let leading := power + (Nat.toDigits 10 significand).length
  let magnitude : Float :=
    if significand = 0 ∨ leading < -400 then 0.0
    else if 400 < leading then 1.0 / 0.0
    else Float.ofScientific significand (decide (power < 0)) power.natAbs
  if negative then -magnitude else magnitude

/-- Splits a sign off: whether it is a minus sign, and the rest. -/
def splitSign : List Char → Bool × List Char
  | '-' :: cs => (true, cs)
  | '+' :: cs => (false, cs)
  | cs => (false, cs)

/-- The exponent behind an `e` or `E`: an optional sign and digits. Without a mark it is zero. -/
def exponentPart? : List Char → Option Int
  | [] => some 0
  | mark :: cs =>
    let (negative, digits) := splitSign cs
    if (mark == 'e' || mark == 'E') && !digits.isEmpty && digits.all Char.isDigit then
      some (if negative then -(digitsValue digits : Int) else digitsValue digits)
    else none

/-- Reads an unsigned numeral: digits with at most one point and at least one digit, and an
optional exponent. -/
def unsignedNumeral? (negative : Bool) (cs : List Char) : Option Float :=
  let whole := cs.takeWhile Char.isDigit
  let (fraction, rest) := match cs.dropWhile Char.isDigit with
    | '.' :: more => (more.takeWhile Char.isDigit, more.dropWhile Char.isDigit)
    | more => ([], more)
  if whole.isEmpty && fraction.isEmpty then none
  else
    (exponentPart? rest).map fun exponent =>
      floatOfDigits negative (whole ++ fraction) fraction.length exponent

/-- Reads a numeral, or the name of an infinity or of NaN, with an optional sign. -/
def floatOfNumeral? (text : String) : Option Float :=
  let (negative, cs) := splitSign text.toList
  let signed := fun (x : Float) => if negative then -x else x
  match String.ofList (cs.map Char.toLower) with
  | "inf" | "infinity" => some (signed (1.0 / 0.0))
  | "nan" => some (signed (0.0 / 0.0))
  | _ => unsignedNumeral? negative cs

end Tariff
