/-
# Scalars of TOML

Numbers, truth values, dates and times, which stand without quotes. Single underscores may
stand between the digits of a number. Integers are those of 64 bits.
-/
import Tariff.Binary.Numeral
import Tariff.Calendar.Date
import Tariff.Power
import Tariff.Settings.Value

namespace Tariff

namespace Toml

/-! ## Numbers -/

/-- The digits of a run in which single underscores may stand between digits; `before` tells
whether a digit came before. -/
def separatedDigits? (isDigit : Char → Bool) (before : Bool) : List Char → Option (List Char)
  | [] => if before then some [] else none
  | c :: cs =>
    if c == '_' && before then separatedDigits? isDigit false cs
    else if isDigit c then (separatedDigits? isDigit true cs).map (c :: ·)
    else none

/-- The decimal digits of a whole number, which begins with a zero only if that is all. -/
def wholeDigits? (cs : List Char) : Option (List Char) := do
  let digits ← separatedDigits? Char.isDigit false cs
  match digits with
  | '0' :: _ :: _ => none
  | digits => some digits

/-- An integer, if 64 bits hold it. -/
def boundedInteger? (value : Int) : Option SettingValue :=
  if fitsSigned 64 value then some (.integer value) else none

/-- Reads an integer in a base given by its digits. -/
def basedInteger? (base : Nat) (isDigit : Char → Bool) (cs : List Char) : Option SettingValue := do
  let digits ← separatedDigits? isDigit false cs
  boundedInteger? (digits.foldl (fun n c => n * base + (hexValue? c).getD 0) 0)

/-- Reads an integer. -/
def integer? (cs : List Char) : Option SettingValue :=
  match cs with
  | '0' :: 'x' :: digits => basedInteger? 16 (fun c => (hexValue? c).isSome) digits
  | '0' :: 'o' :: digits => basedInteger? 8 (fun c => c.isDigit && decide (c < '8')) digits
  | '0' :: 'b' :: digits => basedInteger? 2 (fun c => c == '0' || c == '1') digits
  | _ => do
    let (negative, unsigned) := splitSign cs
    let digits ← wholeDigits? unsigned
    let value : Int := digitsValue digits
    boundedInteger? (if negative then -value else value)

/-- Reads the exponent of a number. -/
def exponent? (cs : List Char) : Option Int := do
  let (negative, digits) := splitSign cs
  let digits ← separatedDigits? Char.isDigit false digits
  return if negative then -(digitsValue digits : Int) else digitsValue digits

/-- Reads a number with a fraction, an exponent or both, if it is not too large. -/
def fractional? (cs : List Char) : Option SettingValue := do
  let (negative, unsigned) := splitSign cs
  let isMark := fun c : Char => c == 'e' || c == 'E'
  let mantissa := unsigned.takeWhile fun c => !isMark c
  let whole ← wholeDigits? (mantissa.takeWhile (· != '.'))
  let fraction ← match mantissa.dropWhile (· != '.') with
    | [] => some []
    | _ :: digits => separatedDigits? Char.isDigit false digits
  let exponent ← match unsigned.dropWhile fun c => !isMark c with
    | [] => some 0
    | _ :: digits => exponent? digits
  if mantissa.length = unsigned.length ∧ fraction.isEmpty then none
  let value := floatOfDigits negative (whole ++ fraction) fraction.length exponent
  if value.isInf then none else return .float value

/-- Reads a truth value, an infinity or NaN. -/
def word? (cs : List Char) : Option SettingValue :=
  let (negative, unsigned) := splitSign cs
  let signed := fun (x : Float) => if negative then -x else x
  match String.ofList cs, String.ofList unsigned with
  | "true", _ => some (.boolean true)
  | "false", _ => some (.boolean false)
  | _, "inf" => some (.float (signed (1.0 / 0.0)))
  | _, "nan" => some (.float (signed (0.0 / 0.0)))
  | _, _ => none

/-! ## Dates and times -/

/-- Reads exactly `width` digits. -/
def digits? (width : Nat) (cs : List Char) : Option (Nat × List Char) :=
  let digits := cs.take width
  if digits.length = width ∧ digits.all Char.isDigit then some (digitsValue digits, cs.drop width)
  else none

/-- Reads a day. -/
def day? (cs : List Char) : Option (String × List Char) := do
  let (year, rest) ← digits? 4 cs
  let '-' :: rest := rest | none
  let (month, rest) ← digits? 2 rest
  let '-' :: rest := rest | none
  let (day, rest) ← digits? 2 rest
  let date ← Date.ofParts? year month day
  return (date.toText, rest)

/-- Reads hours and minutes. -/
def clock? (cs : List Char) : Option (String × List Char) := do
  let (hour, rest) ← digits? 2 cs
  let ':' :: rest := rest | none
  let (minute, rest) ← digits? 2 rest
  if hour < 24 ∧ minute < 60 then
    return (Date.padded 2 hour ++ ":" ++ Date.padded 2 minute, rest)
  else none

/-- The fraction of a second to nine digits, without the zeros at its end. -/
def fractionText (digits : List Char) : String :=
  let kept := ((digits.take 9).reverse.dropWhile (· == '0')).reverse
  if kept.isEmpty then "" else String.ofList ('.' :: kept)

/-- Reads a time of day. -/
def time? (cs : List Char) : Option (String × List Char) := do
  let (clock, rest) ← clock? cs
  let ':' :: rest := rest | none
  let (second, rest) ← digits? 2 rest
  if 60 < second then none
  let (fraction, rest) ← match rest with
    | '.' :: more =>
      let digits := more.takeWhile Char.isDigit
      if digits.isEmpty then none else some (fractionText digits, more.dropWhile Char.isDigit)
    | rest => some ("", rest)
  return (clock ++ ":" ++ Date.padded 2 second ++ fraction, rest)

/-- Reads a zone. -/
def zone? (cs : List Char) : Option String :=
  let offset := fun (sign : String) (rest : List Char) =>
    match clock? rest with
    | some (clock, []) => some (sign ++ clock)
    | _ => none
  match cs with
  | [] => some ""
  | ['Z'] => some "Z"
  | ['z'] => some "Z"
  | '+' :: rest => offset "+" rest
  | '-' :: rest => offset "-" rest
  | _ => none

/-- Reads a day, a time, or both with an optional zone; the value is their text. -/
def moment? (cs : List Char) : Option SettingValue :=
  match day? cs with
  | none =>
    match time? cs with
    | some (time, []) => some (.text time)
    | _ => none
  | some (day, []) => some (.text day)
  | some (day, mark :: rest) => do
    if !(mark == 'T' || mark == 't' || mark == ' ') then none
    let (time, rest) ← time? rest
    let zone ← zone? rest
    return .text (day ++ "T" ++ time ++ zone)

/-! ## All scalars -/

/-- The characters of scalars. -/
def isScalarPart (c : Char) : Bool :=
  c.isAlphanum || c == '+' || c == '-' || c == '.' || c == ':' || c == '_'

/-- Reads a scalar without quotes. A day and a time may have a space between them. -/
def scalar (cs : List Char) : Option (SettingValue × List Char) :=
  let run := cs.takeWhile isScalarPart
  let rest := cs.dropWhile isScalarPart
  let joined : Bool := match rest with
    | ' ' :: c :: _ => (day? run).any (fun (_, after) => after.isEmpty) && c.isDigit
    | _ => false
  if joined then
    let more := rest.drop 1
    (moment? (run ++ ' ' :: more.takeWhile isScalarPart)).map
      fun value => (value, more.dropWhile isScalarPart)
  else
    ((word? run).or ((integer? run).or ((fractional? run).or (moment? run)))).map
      fun value => (value, rest)

end Toml

end Tariff
