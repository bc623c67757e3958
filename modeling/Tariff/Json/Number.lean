/-
# Numbers of JSON

A number without point and exponent is an integer if 64 bits hold it. All others become
doubles, by a method that is fixed step by step: the leading digits, as many as 64 bits hold,
are converted and then multiplied or divided by a power of ten.
-/
import Tariff.Binary.Shortest
import Tariff.Json.Lexeme
import Tariff.Power
import Tariff.Text.Digits

namespace Tariff

/-- The value of a JSON number. Integers are those from `-2 ^ 63` to `2 ^ 64 - 1`. -/
inductive JsonNumber where
  | integer (value : Int)
  | float (value : Float)

/-- Digits that were collected: a significand below `2 ^ 64` and a power of ten. -/
structure Collected where
  significand : Nat
  exponent : Int

namespace Collected

/-- Takes in the digits before the point. Once a digit does not fit, it and all further ones
only raise the exponent. -/
def whole (significand : Nat) : List Char → Collected
  | [] => ⟨significand, 0⟩
  | c :: cs =>
    let longer := significand * 10 + digitValue c
    if longer < twoPow 64 then whole longer cs else ⟨significand, (c :: cs).length⟩

/-- Takes in the digits behind the point, up to the first one that does not fit. -/
def fraction (collected : Collected) : List Char → Collected
  | [] => collected
  | c :: cs =>
    let longer := collected.significand * 10 + digitValue c
    if longer < twoPow 64 then fraction ⟨longer, collected.exponent - 1⟩ cs else collected

/-- A power of ten as a double. -/
def powerOfTen (exponent : Nat) : Float := Float.ofScientific 1 false exponent

/-- Divides by `10 ^ exponent`, by `10 ^ 308` first where the exponent is larger. -/
def divide (x : Float) (exponent : Nat) : Float :=
  if _h : exponent ≤ 308 then x / powerOfTen exponent
  else if x == 0.0 then x
  else divide (x / powerOfTen 308) (exponent - 308)
termination_by exponent

/-- Multiplies by `10 ^ exponent`, unless the product is infinite. -/
def multiply? (x : Float) (exponent : Nat) : Option Float :=
  if exponent ≤ 308 then
    let product := x * powerOfTen exponent
    if product.isInf then none else some product
  else if x == 0.0 then some x
  else none

/-- The double for collected digits, if it is finite. -/
def toFloat? (collected : Collected) : Option Float :=
  let x := Float.ofScientific collected.significand false 0
  if 0 ≤ collected.exponent then multiply? x collected.exponent.toNat
  else some (divide x (-collected.exponent).toNat)

end Collected

namespace NumberLiteral

/-- The value of an exponent's digits, unless it is `2 ^ 31` or more. -/
def exponentValue? (digits : List Char) : Option Nat :=
  let value := digitsValue digits
  if value < twoPow 31 then some value else none

/-- The double for a literal's magnitude, if it is finite. An exponent of ten digits or so
leaves zero, if it is negative or if the digits are zeros. -/
def magnitude? (literal : NumberLiteral) : Option Float :=
  let collected := (Collected.whole 0 literal.whole).fraction literal.fraction
  match literal.exponent with
  | none => collected.toFloat?
  | some (negative, digits) =>
    match exponentValue? digits with
    | some value =>
      let exponent := if negative then collected.exponent - value else collected.exponent + value
      Collected.toFloat? ⟨collected.significand, exponent⟩
    | none => if negative || collected.significand == 0 then some 0.0 else none

/-- The value of a literal; none if it is out of range. A negative zero is a double. -/
def value? (literal : NumberLiteral) : Option JsonNumber :=
  let digits := digitsValue literal.whole
  let isWhole := literal.fraction.isEmpty && literal.exponent.isNone
  if isWhole && !literal.negative && decide (digits < twoPow 64) then some (.integer digits)
  else if isWhole && literal.negative && digits != 0 && decide (digits ≤ twoPow 63) then
    some (.integer (-digits))
  else
    literal.magnitude?.map fun x => .float (if literal.negative then -x else x)

end NumberLiteral

namespace JsonNumber

/-- A double as a number text; there is none for infinities and NaN. -/
def floatText (x : Float) : String :=
  match BinaryParts.ofFloat? x with
  | some parts => parts.numberText
  | none => "null"

/-- The text of a number. -/
def toText : JsonNumber → String
  | .integer value => toString value
  | .float value => floatText value

/-- What a message says was found. -/
def found : JsonNumber → Found
  | .integer value => .integer value
  | .float value => .floatingPoint (floatText value)

end JsonNumber

end Tariff
