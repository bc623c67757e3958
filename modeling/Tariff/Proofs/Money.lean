/-
# Currencies and sums of money

* `currencyCode_eq_ok_iff` : which texts are codes of currencies;
* `addAmount_eq_ok_iff`, `addAmount_eq_error_iff` : when an amount is added, and when it overflows;
* `add_eq_addAmount` : money of the same currency is added like an amount.
-/
import Tariff.Money
import Tariff.Proofs.Outcome
import Tariff.Proofs.Text.Letters

namespace Tariff

/-! ## Currencies -/

/-- Exactly three letters of ASCII. -/
def IsCurrencyCode (code : String) : Prop :=
  code.toList.length = 3 ∧ ∀ c ∈ code.toList, c.isAlpha = true

instance (code : String) : Decidable (IsCurrencyCode code) :=
  decidable_of_iff (isLetterCode 3 code = true) isLetterCode_iff

/-- Exactly three upper-case letters of ASCII. -/
def IsCurrency (currency : String) : Prop :=
  currency.toList.length = 3 ∧ ∀ c ∈ currency.toList, c.isUpper = true

/-- A code of three letters in any case is a currency once it is in upper case. -/
theorem IsCurrencyCode.isCurrency {code : String} (h : IsCurrencyCode code) :
    IsCurrency code.toUpper := by
  obtain ⟨hlength, hletters⟩ := h
  rw [IsCurrency, toList_toUpper, List.length_map, List.forall_mem_map]
  refine ⟨hlength, fun c hc => ?_⟩
  rw [Char.isUpper_toUpper_eq_isAlpha]
  exact hletters c hc

/-- A code is accepted exactly if it has three letters, and is then written in upper case. -/
theorem currencyCode_eq_ok_iff {code currency : String} :
    currencyCode code = .ok currency ↔ IsCurrencyCode code ∧ currency = code.toUpper := by
  rw [currencyCode, IsCurrencyCode, ← isLetterCode_iff]
  split
  · next h => simp [h, eq_comm]
  · next h => simp [h]

/-- Any other code is rejected as it was given. -/
theorem currencyCode_eq_error_iff {code : String} {error : RuleError} :
    currencyCode code = .error error ↔ ¬ IsCurrencyCode code ∧ error = .invalidCurrency code := by
  rw [currencyCode, IsCurrencyCode, ← isLetterCode_iff]
  split
  · next h => simp [h]
  · next h => simp [h, eq_comm]

/-! ## Sums -/

namespace Money

/-- An amount is added exactly if the sum is a decimal, and the currency stays. -/
theorem addAmount_eq_ok_iff {money next : Money} {amount : Decimal} :
    money.addAmount amount = .ok next ↔
      ∃ sum, money.amount.add? amount = some sum ∧ next = { money with amount := sum } := by
  rw [addAmount]
  cases money.amount.add? amount with
  | none => simp
  | some sum => simp [eq_comm]

/-- Where the sum is none, the error names both summands. -/
theorem addAmount_eq_error_iff {money : Money} {amount : Decimal} {error : RuleError} :
    money.addAmount amount = .error error ↔
      money.amount.add? amount = none ∧
        error = .arithmetic (.amountOverflow money.amount amount) := by
  rw [addAmount]
  cases money.amount.add? amount with
  | none => simp [eq_comm]
  | some sum => simp

/-- Money of the same currency is added like an amount. -/
theorem add_eq_addAmount {a b : Money} (hsame : a.currency = b.currency)
    (hupper : a.currency.toUpper = a.currency) : a.add b = a.addAmount b.amount := by
  rw [add, if_pos hsame, addAmount]
  cases a.amount.add? b.amount with
  | none => rfl
  | some sum =>
    show Except.ok (of sum a.currency) = _
    rw [of, hupper]

end Money

end Tariff
