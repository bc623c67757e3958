/-
# Runs of operations on money

Money is created, read from texts, copied and added, in any order. A text gives its currency as it
writes it; sums have theirs in upper case, and so has money that is created. Hence a currency that
is not in upper case comes from a text, and money of such a currency has a sum of another currency.

* `add_eq_ok_iff`, `add_eq_error_iff` : sums of money;
* `perform_cases` : what an operation changes;
* `forall_currency_afterAll` : what holds of all currencies of a run;
* `add_again` : the same money is added again, unless its currency is not in upper case.
-/
import Tariff.Proofs.Money

namespace Tariff

/-! ## Sums -/

namespace Money

theorem add_eq_ok_iff {a b c : Money} :
    a.add b = .ok c ↔ a.currency = b.currency ∧
      ∃ sum, a.amount.add? b.amount = some sum ∧ c = of sum a.currency := by
  rw [add]
  split
  · next hsame =>
    rw [map_eq_ok_iff]
    constructor
    · rintro ⟨money, hmoney, rfl⟩
      obtain ⟨sum, hsum, rfl⟩ := addAmount_eq_ok_iff.mp hmoney
      exact ⟨hsame, sum, hsum, rfl⟩
    · rintro ⟨-, sum, hsum, rfl⟩
      exact ⟨_, addAmount_eq_ok_iff.mpr ⟨sum, hsum, rfl⟩, rfl⟩
  · next hsame => simp [hsame]

theorem add_eq_error_iff {a b : Money} {error : RuleError} :
    a.add b = .error error ↔
      (a.currency ≠ b.currency ∧ error = .currencyMismatch a.currency b.currency) ∨
        (a.currency = b.currency ∧ a.amount.add? b.amount = none ∧
          error = .arithmetic (.amountOverflow a.amount b.amount)) := by
  rw [add]
  split
  · next hsame => simp [hsame, map_eq_error_iff, addAmount_eq_error_iff]
  · next hsame => simp [hsame, eq_comm]

end Money

/-! ## Operations -/

/-- An operation on the money at hand. Money is meant by its place among it. -/
inductive MoneyOperation where
  | create (amount : Decimal) (currency : String)
  | createZero (currency : String)
  | read (text : String)
  | copy (place : Nat)
  | add (left right : Nat)
  | addAmount (place : Nat) (amount : Decimal)
  deriving DecidableEq

namespace MoneyOperation

variable {purse : List Money} {operation : MoneyOperation} {operations : List MoneyOperation}

/-- The money at hand when an operation has succeeded. What is new is put last, and an amount is
added in place; where there is no money, nothing is done. -/
def perform (purse : List Money) : MoneyOperation → Except RuleError (List Money)
  | .create amount currency => .ok (purse ++ [Money.of amount currency])
  | .createZero currency => .ok (purse ++ [Money.zero currency])
  | .read text => (Money.ofText text).map fun money => purse ++ [money]
  | .copy place => .ok (purse ++ purse[place]?.toList)
  | .add left right =>
    match purse[left]?, purse[right]? with
    | some a, some b => (a.add b).map fun sum => purse ++ [sum]
    | _, _ => .ok purse
  | .addAmount place amount =>
    match purse[place]? with
    | some money => (money.addAmount amount).map fun next => purse.set place next
    | none => .ok purse

/-- The money at hand after an operation, whether it succeeds or not. -/
def after (purse : List Money) (operation : MoneyOperation) : List Money :=
  match operation.perform purse with
  | .ok next => next
  | .error _ => purse

/-- The money at hand after operations, the first of which comes first. -/
def afterAll (purse : List Money) (operations : List MoneyOperation) : List Money :=
  operations.foldl after purse

theorem after_of_ok {next : List Money} (h : operation.perform purse = .ok next) :
    after purse operation = next := by rw [after, h]

/-- An operation that fails leaves all money as it is. -/
theorem after_of_error {error : RuleError} (h : operation.perform purse = .error error) :
    after purse operation = purse := by rw [after, h]

/-- What an operation that succeeds does: it puts money last or adds an amount in its place. -/
theorem perform_cases {next : List Money} (h : operation.perform purse = .ok next) :
    next = purse ∨
    (∃ money, next = purse ++ [money] ∧
      (money ∈ purse ∨ (∃ amount code, money = Money.of amount code) ∨
        ∃ text, operation = .read text ∧ Money.ofText text = .ok money)) ∨
    ∃ place amount money sum, operation = .addAmount place amount ∧ purse[place]? = some money ∧
      next = purse.set place { money with amount := sum } := by
  cases operation with
  | create amount currency =>
    cases h
    exact .inr (.inl ⟨_, rfl, .inr (.inl ⟨amount, currency, rfl⟩)⟩)
  | createZero currency =>
    cases h
    exact .inr (.inl ⟨_, rfl, .inr (.inl ⟨Decimal.zero, currency, rfl⟩)⟩)
  | read text =>
    obtain ⟨money, hmoney, rfl⟩ := map_eq_ok_iff.mp h
    exact .inr (.inl ⟨money, rfl, .inr (.inr ⟨text, rfl, hmoney⟩)⟩)
  | copy place =>
    cases h
    cases hplace : purse[place]? with
    | none => exact .inl (List.append_nil purse)
    | some money => exact .inr (.inl ⟨money, rfl, .inl (List.mem_of_getElem? hplace)⟩)
  | add left right =>
    rw [perform] at h
    split at h
    · next a b _ _ =>
      obtain ⟨c, hc, rfl⟩ := map_eq_ok_iff.mp h
      obtain ⟨-, sum, -, rfl⟩ := Money.add_eq_ok_iff.mp hc
      exact .inr (.inl ⟨_, rfl, .inr (.inl ⟨sum, a.currency, rfl⟩)⟩)
    · cases h
      exact .inl rfl
  | addAmount place amount =>
    rw [perform] at h
    split at h
    · next money hmoney =>
      obtain ⟨changed, hchanged, rfl⟩ := map_eq_ok_iff.mp h
      obtain ⟨sum, -, rfl⟩ := Money.addAmount_eq_ok_iff.mp hchanged
      exact .inr (.inr ⟨place, amount, money, sum, rfl, hmoney, rfl⟩)
    · cases h
      exact .inl rfl

/-! ## Currencies -/

/-- A property of currencies that upper case gives holds of all currencies after an operation if it
held of those before it and holds of the one that is read. -/
theorem forall_currency_after {P : String → Prop} (hupper : ∀ code : String, P code.toUpper)
    (hread : ∀ text money, operation = .read text → Money.ofText text = .ok money →
      P money.currency)
    (hpurse : ∀ money ∈ purse, P money.currency) :
    ∀ money ∈ after purse operation, P money.currency := by
  cases h : operation.perform purse with
  | error error => rwa [after_of_error h]
  | ok next =>
    rw [after_of_ok h]
    rcases perform_cases h with rfl | ⟨new, rfl, hnew⟩ | ⟨place, amount, old, sum, -, hold, rfl⟩
    · exact hpurse
    · refine List.forall_mem_append.mpr ⟨hpurse, List.forall_mem_singleton.mpr ?_⟩
      rcases hnew with hmem | ⟨amount, code, rfl⟩ | ⟨text, rfl, htext⟩
      · exact hpurse new hmem
      · exact hupper code
      · exact hread text new rfl htext
    · intro money hmoney
      rcases List.mem_or_eq_of_mem_set hmoney with hmem | rfl
      · exact hpurse money hmem
      · exact hpurse old (List.mem_of_getElem? hold)

/-- A property of currencies that upper case gives holds of all currencies of a run if it holds of
those that are read. -/
theorem forall_currency_afterAll {P : String → Prop} (hupper : ∀ code : String, P code.toUpper)
    (hread : ∀ text money, .read text ∈ operations → Money.ofText text = .ok money →
      P money.currency)
    (hpurse : ∀ money ∈ purse, P money.currency) :
    ∀ money ∈ afterAll purse operations, P money.currency := by
  induction operations generalizing purse with
  | nil => exact hpurse
  | cons operation operations ih =>
    apply ih (fun text money hmem => hread text money (List.mem_cons_of_mem _ hmem))
    apply forall_currency_after hupper _ hpurse
    rintro text money rfl
    exact hread text money List.mem_cons_self

/-- A text among those that are read writes a currency as it stands. -/
def Writes (operations : List MoneyOperation) (currency : String) : Prop :=
  ∃ text money, .read text ∈ operations ∧ Money.ofText text = .ok money ∧ money.currency = currency

/-- The currencies of a run are in upper case or stand in a text that is read. -/
theorem upper_or_writes {money : Money} (h : money ∈ afterAll [] operations) :
    money.currency.toUpper = money.currency ∨ Writes operations money.currency :=
  forall_currency_afterAll
    (P := fun currency => currency.toUpper = currency ∨ Writes operations currency)
    (fun code => .inl (toUpper_toUpper code))
    (fun text money hmem hmoney => .inr ⟨text, money, hmem, hmoney, rfl⟩)
    (fun _ h => absurd h List.not_mem_nil) money h

end MoneyOperation

/-! ## Adding again -/

namespace Money

open MoneyOperation

/-- **The same money is added again, unless its currency is not in upper case.** Let a run of
operations give some money, and let other money be added to it. Then both are of the same currency,
and the sum is of this currency in upper case. If the currency is in upper case, then the sum and
the other money are added once more unless their amounts are too large. If it is not, then it stands
in a text that was read, and the sum and the other money are not of the same currency. What fails
leaves all money as it is. -/
theorem add_again (operations : List MoneyOperation) {a b c : Money}
    (hrun : a ∈ afterAll [] operations) (hsum : a.add b = .ok c) :
    b.currency = a.currency ∧ c.currency = a.currency.toUpper ∧
    (a.currency.toUpper = a.currency → ∀ error,
      (c.add b = .error error → c.amount.add? b.amount = none ∧
        error = .arithmetic (.amountOverflow c.amount b.amount)) ∧
      (b.add c = .error error → b.amount.add? c.amount = none ∧
        error = .arithmetic (.amountOverflow b.amount c.amount))) ∧
    (a.currency.toUpper ≠ a.currency → Writes operations a.currency ∧
      c.add b = .error (.currencyMismatch a.currency.toUpper a.currency) ∧
      b.add c = .error (.currencyMismatch a.currency a.currency.toUpper)) ∧
    ∀ (operation : MoneyOperation) error, operation.perform (afterAll [] operations) =
      .error error → after (afterAll [] operations) operation = afterAll [] operations := by
  obtain ⟨hsame, sum, -, rfl⟩ := add_eq_ok_iff.mp hsum
  refine ⟨hsame.symm, rfl, ?_, ?_, fun _ _ => after_of_error⟩
  · intro hupper error
    have hcurrency : (of sum a.currency).currency = b.currency := hupper.trans hsame
    constructor
    · intro herror
      rcases add_eq_error_iff.mp herror with ⟨hne, -⟩ | ⟨-, hoverflow⟩
      · exact absurd hcurrency hne
      · exact hoverflow
    · intro herror
      rcases add_eq_error_iff.mp herror with ⟨hne, -⟩ | ⟨-, hoverflow⟩
      · exact absurd hcurrency.symm hne
      · exact hoverflow
  · intro hlower
    have hcurrency : (of sum a.currency).currency ≠ b.currency :=
      fun h => hlower (h.trans hsame.symm)
    refine ⟨(upper_or_writes hrun).resolve_left hlower, ?_, ?_⟩
    · rw [add_eq_error_iff, ← hsame]
      exact Or.inl ⟨hsame ▸ hcurrency, rfl⟩
    · rw [add_eq_error_iff, ← hsame]
      exact Or.inl ⟨hsame ▸ hcurrency.symm, rfl⟩

/-- Two amounts in euro, created in either case, are added, and so are their sum and the second. -/
theorem add_again_euro :
    let purse := afterAll [] [.create Decimal.one "eur", .createZero "EUR"]
    ∃ a ∈ purse, ∃ b ∈ purse, ∃ c, a.add b = .ok c ∧ c.currency = "EUR" ∧
      ∀ error, c.add b = .error error → c.amount.add? b.amount = none := by
  have hrun : (⟨Decimal.one, "EUR"⟩ : Money) ∈
      afterAll [] [.create Decimal.one "eur", .createZero "EUR"] := by decide +kernel
  have hsum : (⟨Decimal.one, "EUR"⟩ : Money).add ⟨Decimal.zero, "EUR"⟩ =
      .ok ⟨Decimal.one, "EUR"⟩ := by decide +kernel
  obtain ⟨-, hcurrency, hagain, -, -⟩ := add_again _ hrun hsum
  exact ⟨_, hrun, _, by decide +kernel, _, hsum, hcurrency.trans (by decide +kernel),
    fun error herror => ((hagain (by decide +kernel) error).1 herror).1⟩

/-- Money that is read in lower case is added to itself once only. -/
theorem add_again_lower_case :
    ∃ a ∈ afterAll [] [.read "\x7b\"amount\": \"1\", \"currency\": \"eur\"\x7d"], ∃ c,
      a.add a = .ok c ∧ c.currency ≠ a.currency ∧
        c.add a = .error (.currencyMismatch "EUR" "eur") ∧
        a.add c = .error (.currencyMismatch "eur" "EUR") := by
  refine ⟨⟨Decimal.one, "eur"⟩, ?_, ⟨⟨false, 2, 0, by decide, by decide⟩, "EUR"⟩, ?_, ?_, ?_, ?_⟩
  all_goals decide +kernel

end Money

end Tariff
