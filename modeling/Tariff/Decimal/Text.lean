/-
# Decimals as text

Writing puts out every digit of the scale. Reading takes an optional sign, digits with at
most one point among them and underscores after the first digit; digits beyond the bounds of
a decimal are rounded half up on the first one dropped. A text that is no such numeral may
carry a power of ten behind an `e` or `E`.
-/
import Tariff.Decimal.Rounding
import Tariff.Text.Digits

namespace Tariff

/-- Why a text is not a decimal. -/
inductive NumeralFault where
  | empty
  | tooManyDigits
  | secondPoint
  | leadingSeparator
  | unknownCharacter
  | noDigits
  | roundingOverflow
  | badExponent
  | exponentTooLarge (exponent : Nat)
  | tooLarge
  deriving DecidableEq

/-- The wording of a numeral's fault. -/
def NumeralFault.message : NumeralFault → String
  | .empty => "Invalid decimal: empty"
  | .tooManyDigits => "Invalid decimal: overflow from too many digits"
  | .secondPoint => "Invalid decimal: two decimal points"
  | .leadingSeparator => "Invalid decimal: must start lead with a number"
  | .unknownCharacter => "Invalid decimal: unknown character"
  | .noDigits => "Invalid decimal: no digits found"
  | .roundingOverflow => "Invalid decimal: overflow from mantissa after rounding"
  | .badExponent => "Failed to parse"
  | .exponentTooLarge exponent =>
    s!"Scale exceeds the maximum precision allowed: {exponent} > 28"
  | .tooLarge => "Number exceeds maximum value that can be represented."

namespace Decimal

/-! ## Writing -/

/-- The digits of `a`, with as many zeros in front as a digit before the point needs. -/
def paddedDigits (a : Decimal) : List Char :=
  let digits := Nat.toDigits 10 a.coefficient
  List.replicate (a.scale + 1 - digits.length) '0' ++ digits

/-- The written form: sign, digits, and a point if there are digits behind it. -/
def toText (a : Decimal) : String :=
  let digits := a.paddedDigits
  let whole := digits.take (digits.length - a.scale)
  let fraction := digits.drop (digits.length - a.scale)
  String.ofList ((if a.negative then ['-'] else []) ++ whole ++
    (if a.scale = 0 then [] else '.' :: fraction))

instance : ToString Decimal := ⟨toText⟩

/-! ## Reading -/

/-- Appends a digit, behind the point if `fraction` says so, unless the result leaves the
bounds. -/
def push? (a : Decimal) (digit : Nat) (fraction : Bool) : Option Decimal :=
  ofParts? a.negative (a.coefficient * 10 + digit) (if fraction then a.scale + 1 else a.scale)

/-- What may follow the digit at which rounding took place: digits and underscores. -/
def checkIgnored : List Char → Except NumeralFault Unit
  | [] => .ok ()
  | c :: cs =>
    if c == '.' then .error .secondPoint
    else if c.isDigit || c == '_' then checkIgnored cs
    else .error .unknownCharacter

/-- Raises the last digit by one, dropping a digit where the coefficient would reach its limit. -/
def increment (a : Decimal) : Except NumeralFault Decimal :=
  if h : a.coefficient + 1 < limit then
    .ok ⟨a.negative, a.coefficient + 1, a.scale, h, a.scale_le⟩
  else if a.scale = 0 then
    .error .roundingOverflow
  else
    .ok ⟨a.negative, (a.coefficient + 5) / 10, a.scale - 1,
      by have := a.coefficient_lt; unfold limit at *; omega, Nat.le_trans (Nat.sub_le _ _) a.scale_le⟩

/-- Rounds at the first digit that does not fit any more; the rest only has to be well formed. -/
def roundAt (a : Decimal) (digit : Nat) (rest : List Char) : Except NumeralFault Decimal := do
  let rounded ← if 5 ≤ digit then a.increment else .ok a
  checkIgnored rest
  return rounded

/-- Reads on after `a` was read, where `point` and `digits` tell whether there was a point and
whether there was a digit. -/
def readDigits (a : Decimal) (point digits : Bool) : List Char → Except NumeralFault Decimal
  | [] => if digits then .ok a else .error .noDigits
  | c :: cs =>
    if c.isDigit then
      match a.push? (digitValue c) point with
      | some longer => readDigits longer point true cs
      | none => if point then a.roundAt (digitValue c) cs else .error .tooManyDigits
    else if c == '.' then
      if point then .error .secondPoint else readDigits a true digits cs
    else if c == '_' then
      if digits then readDigits a point digits cs else .error .leadingSeparator
    else
      .error .unknownCharacter

/-- Reads a numeral without an exponent. A zero comes out without a minus sign. -/
def readNumeral (cs : List Char) : Except NumeralFault Decimal :=
  match cs with
  | [] => .error .empty
  | c :: rest =>
    let start := if c == '+' || c == '-' then rest else cs
    (readDigits zero false false start).map fun a =>
      { a with negative := c == '-' && a.coefficient != 0 }

/-- Reads the digits of an exponent: an optional plus sign and a number below `2 ^ 32`. -/
def readExponent (cs : List Char) : Except NumeralFault Nat :=
  let digits := match cs with
    | '+' :: rest => rest
    | _ => cs
  let value := digitsValue digits
  if digits.isEmpty || !digits.all Char.isDigit || decide (twoPow 32 ≤ value) then
    .error .badExponent
  else if 28 < value then .error (.exponentTooLarge value)
  else .ok value

/-- Drops digits behind the point until `scale` are left, rounding half up on the last one
dropped. -/
def shorten (a : Decimal) (scale : Nat) : Nat :=
  if a.scale ≤ scale then a.coefficient
  else
    let dropped := a.coefficient / tenPow (a.scale - scale - 1)
    if 5 ≤ dropped % 10 then dropped / 10 + 1 else dropped / 10

/-- Divides by `10 ^ exponent`, within the largest scale. -/
def shiftDown? (a : Decimal) (exponent : Nat) : Option Decimal :=
  if a.scale + exponent ≤ 28 then ofParts? a.negative a.coefficient (a.scale + exponent)
  else ofParts? a.negative (a.shorten (28 - exponent)) 28

/-- Multiplies by `10 ^ exponent`; what goes beyond the digits behind the point has to fit. -/
def shiftUp? (a : Decimal) (exponent : Nat) : Option Decimal :=
  if exponent ≤ a.scale then ofParts? a.negative a.coefficient (a.scale - exponent)
  else ofMagnitude? a.negative (a.coefficient * tenPow (exponent - a.scale)) 0

/-- Reads a numeral and the power of ten that follows the first `e` or `E`. -/
def readScientific (cs : List Char) : Except NumeralFault Decimal := do
  let isMark := fun c : Char => c == 'e' || c == 'E'
  let base ← readNumeral (cs.takeWhile fun c => !isMark c)
  let shifted ← match (cs.dropWhile fun c => !isMark c).drop 1 with
    | '-' :: digits => (readExponent digits).map base.shiftDown?
    | digits => (readExponent digits).map base.shiftUp?
  match shifted with
  | some a => return a
  | none => throw .tooLarge

/-- Reads a decimal; a power of ten is looked for only where the text is no plain numeral. -/
def ofText (s : String) : Except NumeralFault Decimal :=
  match readNumeral s.toList with
  | .ok a => .ok a
  | .error fault =>
    if s.toList.any (fun c => c == 'e' || c == 'E') then readScientific s.toList
    else .error fault

end Decimal

end Tariff
