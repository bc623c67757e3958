/-
# Amounts of money

An amount is a decimal in a currency. Amounts of different currencies are never added.
-/
import Tariff.Decimal.Arithmetic
import Tariff.Error
import Tariff.Json.Reader
import Tariff.Text.Name

namespace Tariff

/-- The upper-case form of a currency code, which is three ASCII letters. -/
def currencyCode (code : String) : Except RuleError String :=
  if isLetterCode 3 code then .ok code.toUpper else .error (.invalidCurrency code)

/-- An amount of money. -/
structure Money where
  amount : Decimal
  currency : String
  deriving DecidableEq

namespace Money

/-- An amount in a currency, whose code is put in upper case. -/
def of (amount : Decimal) (currency : String) : Money := ⟨amount, currency.toUpper⟩

/-- No money. -/
def zero (currency : String) : Money := of Decimal.zero currency

/-- Whether the amount is zero. -/
def isZero (m : Money) : Bool := m.amount.isZero

/-- The same currency, and numerically the same amount. -/
def sameValue (a b : Money) : Bool := a.amount.sameValue b.amount && a.currency == b.currency

/-- Adds an amount of the same currency. -/
def addAmount (m : Money) (amount : Decimal) : Except RuleError Money :=
  match m.amount.add? amount with
  | some sum => .ok { m with amount := sum }
  | none => .error (.arithmetic (.amountOverflow m.amount amount))

/-- Adds two amounts of money; their currencies have to be written alike. -/
def add (a b : Money) : Except RuleError Money :=
  if a.currency = b.currency then
    (a.addAmount b.amount).map fun sum => of sum.amount sum.currency
  else .error (.currencyMismatch a.currency b.currency)

/-- The amount, a space and the currency. -/
def toText (m : Money) : String := s!"{m.amount} {m.currency}"

/-! ## JSON -/

/-- What messages call an amount. -/
def expectedAmount : String := "a Decimal type representing a fixed-point number"

/-- Reads an amount: a text, or a number by its shortest digits. -/
def readAmount : JsonReader Decimal := fun room draft => do
  let mismatch := fun found => JsonFault.mismatch (.wrongValue found expectedAmount)
  let read := fun (text : String) (found : Found) =>
    match Decimal.ofText text with
    | .ok amount => .ok amount
    | .error _ => .error (mismatch found)
  match draft, room with
  | .text literal, _ => do
    let value ← literal.decode
    read value (.text value)
  | .number literal, _ =>
    match literal.value? with
    | some (.integer value) => read (toString value) (.integer value)
    | some (.float value) =>
      match BinaryParts.ofFloat? value with
      | some parts => read parts.plainText (JsonNumber.float value).found
      | none => .error .malformed
    | none => .error .malformed
  | .array _ _, 0 => .error .malformed
  | .object _ _, 0 => .error .malformed
  | draft, _ => .error (draft.unexpected expectedAmount)

/-- What has been read of an amount of money. -/
structure Parts where
  amount : Option Decimal
  currency : Option String

/-- Takes in a field of an amount of money. -/
def setField (room : Nat) (parts : Parts) (name : String) (draft : JsonDraft) :
    Except JsonFault Parts := do
  match name with
  | "amount" => return { parts with amount := ← JsonReader.once name parts.amount (readAmount room draft) }
  | "currency" =>
    return { parts with currency := ← JsonReader.once name parts.currency (JsonReader.text room draft) }
  | _ => draft.skip.map fun _ => parts

/-- The fields of an amount of money. -/
def fields : JsonReader.RecordFields Parts :=
  ⟨"Money", [("amount", true), ("currency", true)], setField⟩

/-- Reads an amount of money. The currency is taken as it is written. -/
def read : JsonReader Money := fun room draft => do
  let parts ← fields.read ⟨none, none⟩ room draft
  let amount ← JsonReader.required "amount" parts.amount
  let currency ← JsonReader.required "currency" parts.currency
  return ⟨amount, currency⟩

/-- Reads an amount of money from a text. -/
def ofText (text : String) : Except RuleError Money := (readJson read text).mapError .unreadable

/-- The JSON object that an amount of money is written as. -/
def toJson (m : Money) : Json :=
  .object [("amount", .text m.amount.toText), ("currency", .text m.currency)]

end Money

end Tariff
