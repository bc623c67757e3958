/-
# What a breakdown accounts for

A breakdown accounts for every applicable rule once: for one that applies by an entry with the
value of its expression, for one that is skipped by its id. The total is the sum of the entries.

* `currencyOf_eq_ok_iff` : the currency of a calculation;
* `Tally.take_eq_ok_iff` : what a rule does to a tally;
* `Tally.Accounts.take` : executing a rule accounts for it;
* `accounts_of_tallyRules` : adding up rules accounts for all of them;
* `breakdown_accounts_for_rules` : what holds of every breakdown.
-/
import Mathlib.Data.List.Forall2
import Mathlib.Data.List.Nodup
import Tariff.Estimate.Basic
import Tariff.Proofs.Catalog.Applicable
import Tariff.Proofs.Execution
import Tariff.Proofs.Money

namespace Tariff

variable {settings : EngineSettings} {bag : ParameterBag}

/-! ## The currency of a calculation -/

/-- The code of the currency that a calculation is asked to use: the text that the parameters have
for it, or else the default. -/
def AsksFor (settings : EngineSettings) (bag : ParameterBag) (code : String) : Prop :=
  bag.get? currencyParameter = some (.text code) ∨
    bag.get? currencyParameter = none ∧ code = settings.defaultCurrency

theorem requestedCurrency_eq_ok_iff {requested : Option String} :
    requestedCurrency bag = .ok requested ↔
      bag.get? currencyParameter = requested.map .text := by
  rw [requestedCurrency]
  rcases bag.get? currencyParameter with _ | value
  · cases requested <;> simp
  · cases value <;> cases requested <;> simp

theorem currencyOf_eq_ok_iff {currency : String} :
    currencyOf settings bag = .ok currency ↔
      ∃ code, AsksFor settings bag code ∧ IsCurrencyCode code ∧ currency = code.toUpper := by
  rw [currencyOf, bind_eq_ok_iff]
  constructor
  · rintro ⟨requested, hrequested, hcode⟩
    rw [requestedCurrency_eq_ok_iff] at hrequested
    cases requested with
    | none => exact ⟨_, Or.inr ⟨hrequested, rfl⟩, currencyCode_eq_ok_iff.mp hcode⟩
    | some code => exact ⟨code, Or.inl hrequested, currencyCode_eq_ok_iff.mp hcode⟩
  · rintro ⟨code, hcode | ⟨hnone, rfl⟩, hcurrency⟩
    · exact ⟨some code, requestedCurrency_eq_ok_iff.mpr hcode, currencyCode_eq_ok_iff.mpr hcurrency⟩
    · exact ⟨none, requestedCurrency_eq_ok_iff.mpr hnone, currencyCode_eq_ok_iff.mpr hcurrency⟩

/-- A calculation without a currency fails for the currency. -/
theorem exists_of_currencyOf_error {error : RuleError}
    (h : currencyOf settings bag = .error error) : ∃ value, error = .invalidCurrency value := by
  rw [currencyOf, bind_eq_error_iff, requestedCurrency] at h
  rcases h with h | ⟨requested, -, h⟩
  · split at h
    · cases h
    · cases h
    · cases h
      exact ⟨_, rfl⟩
  · exact ⟨_, (currencyCode_eq_error_iff.mp h).2⟩

/-- The currency of a calculation is in upper case. -/
theorem toUpper_of_currencyOf {currency : String} (h : currencyOf settings bag = .ok currency) :
    currency.toUpper = currency := by
  obtain ⟨code, -, -, rfl⟩ := currencyOf_eq_ok_iff.mp h
  exact toUpper_toUpper code

/-! ## Tallies -/

/-- An entry lists a rule: it has the particulars of the rule and the value of its expression. -/
structure AppliedRule.Lists (bag : ParameterBag) (compiled : CompiledRule) (entry : AppliedRule) :
    Prop where
  id : entry.id = compiled.id
  name : entry.name = compiled.rule.name
  type : entry.type = compiled.rule.type
  amount : (compiled.evaluate bag).outcome = .ok entry.amount

namespace Tally

variable {rules : List CompiledRule} {compiled : CompiledRule} {tally next : Tally}

/-- A rule without an amount is listed as skipped. -/
theorem take_of_amount_none {outcome : RuleOutcome}
    (houtcome : (compiled.execute settings.traceEnabled bag).outcome = .ok outcome)
    (hamount : outcome.amount = none) :
    (Tally.take settings bag tally compiled).outcome =
      .ok { tally with skipped := tally.skipped ++ [compiled.id] } := by
  rw [Tally.take, Metered.outcome_bind, bind_eq_ok_iff]
  refine ⟨outcome, houtcome, ?_⟩
  rw [hamount]
  rfl

/-- The amount of a rule is listed if it can be added to the total. -/
theorem take_of_amount_some {outcome : RuleOutcome} {amount : Decimal}
    (houtcome : (compiled.execute settings.traceEnabled bag).outcome = .ok outcome)
    (hamount : outcome.amount = some amount) :
    (Tally.take settings bag tally compiled).outcome =
      (tally.total.addAmount amount).map fun total =>
        let entry := ⟨compiled.id, compiled.rule.name, compiled.rule.type, amount⟩
        { tally with applied := tally.applied ++ [entry], total } := by
  rw [Tally.take, Metered.outcome_bind, houtcome]
  dsimp only [bind, Except.bind]
  rw [hamount]
  dsimp only [Metered.bind, Metered.outcome_ofExcept]
  cases tally.total.addAmount amount <;> rfl

/-- A rule is taken into a tally as one that is skipped, or as one that applies and whose amount can
be added. -/
theorem take_eq_ok_iff :
    (Tally.take settings bag tally compiled).outcome = .ok next ↔
      (compiled.isSkipped bag = true ∧
        next = { tally with skipped := tally.skipped ++ [compiled.id] }) ∨
      ∃ amount sum, compiled.Applies bag ∧
        compiled.expression.evaluate (compiled.source bag) = .ok amount ∧
        tally.total.amount.add? amount = some sum ∧
        next = {
          applied := tally.applied ++
            [⟨compiled.id, compiled.rule.name, compiled.rule.type, amount⟩]
          skipped := tally.skipped
          total := { tally.total with amount := sum } } := by
  constructor
  · intro h
    have hexecuted := h
    rw [Tally.take, Metered.outcome_bind, bind_eq_ok_iff] at hexecuted
    obtain ⟨outcome, houtcome, -⟩ := hexecuted
    have hyields := CompiledRule.exists_execute_iff.mp ⟨outcome, houtcome, rfl⟩
    cases hamount : outcome.amount with
    | none =>
      rw [take_of_amount_none houtcome hamount] at h
      rw [hamount] at hyields
      cases h
      cases hyields with
      | skipped hskipped => exact Or.inl ⟨hskipped, rfl⟩
    | some amount =>
      rw [take_of_amount_some houtcome hamount, map_eq_ok_iff] at h
      rw [hamount] at hyields
      obtain ⟨total, htotal, rfl⟩ := h
      obtain ⟨sum, hsum, rfl⟩ := Money.addAmount_eq_ok_iff.mp htotal
      cases hyields with
      | applied happlies hevaluate =>
        exact Or.inr ⟨amount, sum, happlies, hevaluate, hsum, rfl⟩
  · rintro (⟨hskipped, rfl⟩ | ⟨amount, sum, happlies, hevaluate, hsum, rfl⟩)
    · obtain ⟨outcome, houtcome, hnone⟩ :=
        CompiledRule.exists_execute_iff.mpr (.skipped hskipped)
      exact take_of_amount_none houtcome hnone
    · obtain ⟨outcome, houtcome, hsome⟩ :=
        CompiledRule.exists_execute_iff.mpr (.applied happlies hevaluate)
      rw [take_of_amount_some houtcome hsome, map_eq_ok_iff]
      exact ⟨_, Money.addAmount_eq_ok_iff.mpr ⟨sum, hsum, rfl⟩, rfl⟩

/-- A tally accounts for rules: in their order, those that are skipped by their ids, and the others
by their entries, whose amounts it adds up. -/
structure Accounts (bag : ParameterBag) (rules : List CompiledRule) (tally : Tally) : Prop where
  skipped : tally.skipped = (rules.filter fun one => one.isSkipped bag).map CompiledRule.id
  applied : List.Forall₂ (AppliedRule.Lists bag) (rules.filter fun one => !one.isSkipped bag)
    tally.applied
  total : Decimal.checkedSum (tally.applied.map AppliedRule.amount) = some tally.total.amount

theorem accounts_nil (bag : ParameterBag) (currency : String) :
    Accounts bag [] ⟨[], [], Money.zero currency⟩ :=
  ⟨rfl, .nil, rfl⟩

/-- Executing a rule accounts for it and keeps the currency. -/
theorem Accounts.take (h : tally.Accounts bag rules)
    (hnext : (Tally.take settings bag tally compiled).outcome = .ok next) :
    next.Accounts bag (rules ++ [compiled]) ∧ next.total.currency = tally.total.currency := by
  rcases take_eq_ok_iff.mp hnext with ⟨hskipped, rfl⟩ |
    ⟨amount, sum, happlies, hamount, hsum, rfl⟩
  · refine ⟨⟨?_, ?_, h.total⟩, rfl⟩
    · rw [List.filter_append, List.map_append, ← h.skipped,
        List.filter_singleton, hskipped]
      rfl
    · rw [List.filter_append, List.filter_singleton, hskipped]
      simpa using h.applied
  · refine ⟨⟨?_, ?_, ?_⟩, rfl⟩
    · rw [List.filter_append, List.map_append, ← h.skipped,
        List.filter_singleton, happlies.isSkipped_eq_false]
      simp
    · have hvalue : (compiled.evaluate bag).outcome = .ok amount :=
        CompiledRule.meterFormula_eq_ok_iff.mpr hamount
      rw [List.filter_append, List.filter_singleton, happlies.isSkipped_eq_false]
      exact List.rel_append h.applied (.cons ⟨rfl, rfl, rfl, hvalue⟩ .nil)
    · rw [List.map_append, List.map_singleton, Decimal.checkedSum_append_singleton, h.total]
      exact hsum

end Tally

/-- Adding up rules accounts for all of them, in the currency of the calculation. -/
theorem accounts_of_tallyRules {rules : List CompiledRule} {tally : Tally}
    (h : (tallyRules settings bag rules).outcome = .ok tally) :
    tally.Accounts bag rules ∧ currencyOf settings bag = .ok tally.total.currency := by
  rw [tallyRules, Metered.outcome_bind, bind_eq_ok_iff] at h
  obtain ⟨currency, hcurrency, h⟩ := h
  have hcurrency : currencyOf settings bag = .ok currency := hcurrency
  rw [Metered.outcome_foldlM] at h
  induction rules using List.reverseRecOn generalizing tally with
  | nil =>
    cases h
    refine ⟨Tally.accounts_nil bag currency, ?_⟩
    show _ = Except.ok currency.toUpper
    rw [toUpper_of_currencyOf hcurrency, hcurrency]
  | append_singleton rules compiled ih =>
    rw [foldlM_append_singleton, bind_eq_ok_iff] at h
    obtain ⟨before, hbefore, hlast⟩ := h
    obtain ⟨haccounts, hsame⟩ := ih hbefore
    obtain ⟨hnext, hkept⟩ := haccounts.take hlast
    exact ⟨hnext, by rw [hkept, hsame]⟩

/-! ## Breakdowns -/

/-- The entries of rules have the ids of the rules. -/
theorem map_id_of_lists {rules : List CompiledRule} {entries : List AppliedRule}
    (h : List.Forall₂ (AppliedRule.Lists bag) rules entries) :
    entries.map AppliedRule.id = rules.map CompiledRule.id := by
  induction h with
  | nil => rfl
  | cons hentry hentries ih => rw [List.map_cons, List.map_cons, hentry.id, ih]

/-- A breakdown accounts for rules. Each of them is listed once, among those that apply or among
those that are skipped, and both lists keep the order of the rules. -/
structure CountryBreakdown.AccountsFor (bag : ParameterBag) (rules : List CompiledRule)
    (breakdown : CountryBreakdown) : Prop where
  distinct : (rules.map CompiledRule.id).Nodup
  once : (breakdown.applied.map AppliedRule.id ++ breakdown.skipped).Perm
    (rules.map CompiledRule.id)
  appliedOrder : (breakdown.applied.map AppliedRule.id).Sublist (rules.map CompiledRule.id)
  skippedOrder : breakdown.skipped.Sublist (rules.map CompiledRule.id)
  /-- A rule is skipped for a condition whose value is not greater than zero. -/
  skipped : ∀ compiled ∈ rules, compiled.id ∈ breakdown.skipped ↔
    ∃ condition value, compiled.condition = some condition ∧
      condition.evaluate (compiled.source bag) = .ok value ∧ value.toRat ≤ 0
  /-- Any other rule is listed with the value of its expression. -/
  applied : ∀ compiled ∈ rules, compiled.id ∉ breakdown.skipped →
    ∃ entry ∈ breakdown.applied, entry.Lists bag compiled
  total : Decimal.checkedSum (breakdown.applied.map AppliedRule.amount) =
    some breakdown.total.amount
  /-- The total is exact unless a sum on the way cannot be represented. -/
  exact : Decimal.ExactlySummable (breakdown.applied.map AppliedRule.amount) →
    breakdown.total.amount.toRat =
      ((breakdown.applied.map AppliedRule.amount).map Decimal.toRat).sum

namespace Tally

variable {rules : List CompiledRule} {tally : Tally}

/-- Each rule is among the entries or among the skipped ones, once. -/
theorem Accounts.perm_ids (h : tally.Accounts bag rules) :
    (tally.applied.map AppliedRule.id ++ tally.skipped).Perm (rules.map CompiledRule.id) := by
  rw [map_id_of_lists h.applied, h.skipped, ← List.map_append]
  refine List.Perm.map CompiledRule.id (List.perm_append_comm.trans ?_)
  simpa using List.filter_append_perm (fun one : CompiledRule => one.isSkipped bag) rules

/-- Where ids are distinct, a rule is among the skipped ones only if it is skipped itself. -/
theorem Accounts.mem_skipped_iff (h : tally.Accounts bag rules)
    (hdistinct : (rules.map CompiledRule.id).Nodup) {compiled : CompiledRule}
    (hcompiled : compiled ∈ rules) :
    compiled.id ∈ tally.skipped ↔ compiled.isSkipped bag = true := by
  rw [h.skipped]
  constructor
  · intro hmem
    obtain ⟨other, hother, hid⟩ := List.mem_map.mp hmem
    obtain ⟨hrule, hskipped⟩ := List.mem_filter.mp hother
    rwa [List.inj_on_of_nodup_map hdistinct hrule hcompiled hid] at hskipped
  · intro hskipped
    exact List.mem_map_of_mem (List.mem_filter.mpr ⟨hcompiled, hskipped⟩)

/-- What a tally accounts for, a breakdown with its lists and its total does too. -/
theorem Accounts.accountsFor (h : tally.Accounts bag rules)
    (hdistinct : (rules.map CompiledRule.id).Nodup) (country : String) (date : Date) :
    CountryBreakdown.AccountsFor bag rules
      ⟨country, date, tally.applied, tally.skipped, tally.total⟩ := by
  refine ⟨hdistinct, h.perm_ids, ?_, ?_, ?_, ?_, h.total, ?_⟩
  · show (tally.applied.map AppliedRule.id).Sublist _
    rw [map_id_of_lists h.applied]
    exact List.filter_sublist.map CompiledRule.id
  · show tally.skipped.Sublist _
    rw [h.skipped]
    exact List.filter_sublist.map CompiledRule.id
  · intro compiled hcompiled
    rw [← CompiledRule.isSkipped_iff]
    exact h.mem_skipped_iff hdistinct hcompiled
  · intro compiled hcompiled hnot
    have hnot : ¬ compiled.isSkipped bag = true :=
      fun hskip => hnot ((h.mem_skipped_iff hdistinct hcompiled).mpr hskip)
    exact exists_mem_of_forall₂ h.applied (List.mem_filter.mpr ⟨hcompiled, by simpa using hnot⟩)
  · intro hexact
    exact Decimal.toRat_of_checkedSum hexact h.total

end Tally

namespace Catalog

/-- A breakdown has the lists and the total of its tally. -/
theorem breakdown_eq_ok_iff {catalog : Catalog} {date : Date} {country : String}
    {result : CountryBreakdown} :
    (catalog.breakdown settings bag date country).outcome = .ok result ↔
      ∃ tally, (tallyRules settings bag
          (catalog.applicable ⟨country, none, date⟩)).outcome = .ok tally ∧
        result = ⟨country.toUpper, date, tally.applied, tally.skipped, tally.total⟩ := by
  rw [breakdown]
  split
  · next tally htally => simp [htally, eq_comm]
  · next error herror => simp [herror]

/-- The total of a breakdown is in the currency of the calculation. -/
theorem currencyOf_of_breakdown {catalog : Catalog} {date : Date} {country : String}
    {result : CountryBreakdown}
    (h : (catalog.breakdown settings bag date country).outcome = .ok result) :
    currencyOf settings bag = .ok result.total.currency := by
  obtain ⟨tally, htally, rfl⟩ := breakdown_eq_ok_iff.mp h
  exact (accounts_of_tallyRules htally).2

theorem breakdown_eq_error_iff {catalog : Catalog} {date : Date} {country : String}
    {error : RuleError} :
    (catalog.breakdown settings bag date country).outcome = .error error ↔
      (tallyRules settings bag (catalog.applicable ⟨country, none, date⟩)).outcome =
        .error error := by
  rw [breakdown]
  split
  · next tally htally => simp [htally]
  · next cause hcause => simp [hcause]

/-- **A breakdown accounts for the applicable rules.** These are the stored rules of the country,
whatever the case of its code, that are in force on the day, in rising order of their priorities
and ids. Each of them is skipped for its condition or listed with the value of its expression for
the same parameters. The total is the sum of these amounts, in the currency that the parameters
or else the settings ask for. -/
theorem breakdown_accounts_for_rules {catalog : Catalog} (hreachable : catalog.Reachable)
    {settings : EngineSettings} {bag : ParameterBag} {date : Date} {country : String}
    {result : CountryBreakdown}
    (h : (catalog.breakdown settings bag date country).outcome = .ok result) :
    let rules := catalog.applicable ⟨country, none, date⟩
    (∀ compiled, compiled ∈ rules ↔ compiled ∈ catalog.compiledRules ∧
      sameIgnoringCase compiled.rule.country country = true ∧
      compiled.rule.isEffectiveOn date = true) ∧
    rules.Pairwise (fun a b => a.rule.ComesBefore b.rule) ∧
    result.AccountsFor bag rules ∧
    (∃ code, AsksFor settings bag code ∧ result.total.currency = code.toUpper) ∧
    result.country = country.toUpper := by
  intro rules
  obtain ⟨tally, htally, rfl⟩ := breakdown_eq_ok_iff.mp h
  obtain ⟨haccounts, hcurrency⟩ := accounts_of_tallyRules htally
  obtain ⟨code, hasks, -, hcode⟩ := currencyOf_eq_ok_iff.mp hcurrency
  refine ⟨?_, hreachable.sound.pairwise_applicable,
    haccounts.accountsFor hreachable.sound.nodup_applicable _ _, ⟨code, hasks, hcode⟩, rfl⟩
  intro compiled
  rw [mem_applicable, RuleQuery.accepts, Bool.and_true, Bool.and_eq_true]

/-- A fee of a third of the turnover, with a surcharge on turnovers above a thousand. -/
def feeWithSurcharge : Catalog :=
  empty.afterAll [.load (plainRule "fee" "DE" "turnover / 3" none),
    .load (plainRule "surcharge" "DE" "25" (some "turnover - 1000"))]

/-- For a turnover of a hundred the fee applies and the surcharge does not. -/
theorem breakdown_accounts_for_rules_surcharge :
    let bag : ParameterBag := Table.ofList [("turnover", .integer 100)]
    let date : Date := ⟨2024, 2, 29, by decide⟩
    feeWithSurcharge.Reachable ∧
    ∃ result, (feeWithSurcharge.breakdown {} bag date "DE").outcome = .ok result ∧
      result.skipped = ["surcharge"] ∧
      result.AccountsFor bag (feeWithSurcharge.applicable ⟨"DE", none, date⟩) := by
  intro bag date
  have hreachable : feeWithSurcharge.Reachable := ⟨_, rfl⟩
  have hordered : feeWithSurcharge.applicable ⟨"DE", none, date⟩ =
      feeWithSurcharge.compiledRules.filter fun one =>
        RuleQuery.accepts ⟨"DE", none, date⟩ one.rule :=
    applicable_of_pairwise (by decide +kernel)
  have hskipped : (feeWithSurcharge.breakdown {} bag date "DE").outcome.toOption.map
      CountryBreakdown.skipped = some ["surcharge"] := by
    rw [breakdown, hordered]
    decide +kernel
  obtain ⟨result, hresult, hskipped⟩ := exists_of_toOption_map hskipped
  obtain ⟨-, -, haccounts, -⟩ := breakdown_accounts_for_rules hreachable hresult
  exact ⟨hreachable, result, hresult, hskipped, haccounts⟩

end Catalog

end Tariff
