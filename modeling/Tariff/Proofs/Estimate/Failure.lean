/-
# Where a calculation fails

A calculation takes the applicable rules in their order. It fails at the first one that cannot be
executed or whose amount makes the total overflow; a condition without a value is never taken for
one that does not hold. The error tells the rule, its formula and the reason.

* `Tally.exists_take_iff`, `Tally.take_eq_error_iff` : what a rule does to a tally;
* `exists_foldlM_take_iff` : what rules add up to;
* `tallyRules_eq_error_iff` : where adding up rules fails;
* `FirstFailure.cases` : with which errors;
* `breakdown_fails_at_first_failure` : the same for breakdowns.
-/
import Tariff.Proofs.Estimate.Breakdown
import Tariff.Proofs.Formula.Validity

namespace Tariff

variable {settings : EngineSettings} {bag : ParameterBag}
variable {compiled : CompiledRule} {rules : List CompiledRule} {error : RuleError}

/-! ## One rule -/

/-- What a rule makes of a sum: a rule that is skipped leaves it, and one that applies adds the
value of its expression. -/
inductive CompiledRule.Adds (compiled : CompiledRule) (bag : ParameterBag) (sum : Decimal) :
    Decimal → Prop where
  | skipped (hskipped : compiled.isSkipped bag = true) : Adds compiled bag sum sum
  | applied {amount next : Decimal} (happlies : compiled.Applies bag)
      (hamount : compiled.expression.evaluate (compiled.source bag) = .ok amount)
      (hnext : sum.add? amount = some next) : Adds compiled bag sum next

/-- Why a rule makes nothing of a sum: its execution fails, or it applies and its amount makes the
sum overflow. -/
inductive CompiledRule.FailsAfter (compiled : CompiledRule) (bag : ParameterBag) (sum : Decimal) :
    RuleError → Prop where
  | execution {error : RuleError} (hfails : compiled.Fails bag error) :
      FailsAfter compiled bag sum error
  | overflow {amount : Decimal} (happlies : compiled.Applies bag)
      (hamount : compiled.expression.evaluate (compiled.source bag) = .ok amount)
      (hnone : sum.add? amount = none) :
      FailsAfter compiled bag sum (.arithmetic (.amountOverflow sum amount))

namespace Tally

variable {tally : Tally} {sum : Decimal}

/-- A rule that is taken into a tally adds to its total. -/
theorem exists_take_iff :
    (∃ next, (Tally.take settings bag tally compiled).outcome = .ok next ∧
        next.total.amount = sum) ↔
      compiled.Adds bag tally.total.amount sum := by
  constructor
  · rintro ⟨next, hnext, rfl⟩
    rcases take_eq_ok_iff.mp hnext with ⟨hskipped, rfl⟩ |
      ⟨amount, total, happlies, hamount, htotal, rfl⟩
    · exact .skipped hskipped
    · exact .applied happlies hamount htotal
  · intro h
    cases h with
    | skipped hskipped => exact ⟨_, take_eq_ok_iff.mpr (Or.inl ⟨hskipped, rfl⟩), rfl⟩
    | applied happlies hamount hnext =>
      exact ⟨_, take_eq_ok_iff.mpr (Or.inr ⟨_, _, happlies, hamount, hnext, rfl⟩), rfl⟩

/-- A rule that cannot be taken into a tally fails, or makes its total overflow. -/
theorem take_eq_error_iff :
    (Tally.take settings bag tally compiled).outcome = .error error ↔
      compiled.FailsAfter bag tally.total.amount error := by
  constructor
  · intro h
    cases hexecute : (compiled.execute settings.traceEnabled bag).outcome with
    | error cause =>
      rw [Tally.take, Metered.outcome_bind, hexecute] at h
      cases h
      exact .execution (CompiledRule.execute_eq_error_iff.mp hexecute)
    | ok outcome =>
      have hyields := CompiledRule.exists_execute_iff.mp ⟨outcome, hexecute, rfl⟩
      cases hamount : outcome.amount with
      | none =>
        rw [take_of_amount_none hexecute hamount] at h
        cases h
      | some amount =>
        rw [take_of_amount_some hexecute hamount, map_eq_error_iff] at h
        rw [hamount] at hyields
        obtain ⟨hnone, rfl⟩ := Money.addAmount_eq_error_iff.mp h
        cases hyields with
        | applied happlies hevaluate => exact .overflow happlies hevaluate hnone
  · intro h
    cases h with
    | execution hfails =>
      rw [Tally.take, Metered.outcome_bind, bind_eq_error_iff]
      exact Or.inl (CompiledRule.execute_eq_error_iff.mpr hfails)
    | overflow happlies hevaluate hnone =>
      obtain ⟨outcome, houtcome, hsome⟩ :=
        CompiledRule.exists_execute_iff.mpr (.applied happlies hevaluate)
      rw [take_of_amount_some houtcome hsome, map_eq_error_iff]
      exact Money.addAmount_eq_error_iff.mpr ⟨hnone, rfl⟩

end Tally

/-- A rule fails with an error of its own, or with that of the sum. -/
theorem CompiledRule.FailsAfter.cases {sum : Decimal} (h : compiled.FailsAfter bag sum error) :
    (∃ phase formula cause, error = .ruleFailed compiled.id phase formula cause) ∨
      ∃ amount, error = .arithmetic (.amountOverflow sum amount) := by
  cases h with
  | execution hfails =>
    cases hfails with
    | condition => exact Or.inl ⟨_, _, _, rfl⟩
    | expression => exact Or.inl ⟨_, _, _, rfl⟩
  | overflow => exact Or.inr ⟨_, rfl⟩

/-! ## All rules -/

/-- Rules that add up to a total, after a sum. -/
inductive AddUp (bag : ParameterBag) : Decimal → List CompiledRule → Decimal → Prop where
  | nil {sum : Decimal} : AddUp bag sum [] sum
  | cons {sum next total : Decimal} {compiled : CompiledRule} {rules : List CompiledRule}
      (hfirst : compiled.Adds bag sum next) (hothers : AddUp bag next rules total) :
      AddUp bag sum (compiled :: rules) total

/-- The first failure among rules: those before it add up to a sum, after which it fails. -/
def FirstFailure (bag : ParameterBag) (rules : List CompiledRule) (error : RuleError) : Prop :=
  ∃ before compiled after sum, rules = before ++ compiled :: after ∧
    AddUp bag Decimal.zero before sum ∧ compiled.FailsAfter bag sum error

/-- Rules can be taken into a tally one after the other when they add up after its total. -/
theorem exists_foldlM_take_iff {tally : Tally} {total : Decimal} :
    (∃ final, rules.foldlM (fun tally compiled =>
        (Tally.take settings bag tally compiled).outcome) tally = .ok final ∧
        final.total.amount = total) ↔
      AddUp bag tally.total.amount rules total := by
  -- The induction is on the rules to come; of the tally only the total matters.
  induction rules generalizing tally with
  | nil =>
    constructor
    · rintro ⟨final, hfinal, rfl⟩
      cases hfinal
      exact .nil
    · intro h
      cases h
      exact ⟨tally, rfl, rfl⟩
  | cons compiled rules ih =>
    simp only [List.foldlM_cons, bind_eq_ok_iff]
    constructor
    · rintro ⟨final, ⟨next, hnext, hfinal⟩, htotal⟩
      exact .cons (Tally.exists_take_iff.mp ⟨next, hnext, rfl⟩) (ih.mp ⟨final, hfinal, htotal⟩)
    · intro h
      cases h with
      | cons hfirst hothers =>
        obtain ⟨next, hnext, hsum⟩ := Tally.exists_take_iff.mpr hfirst
        rw [← hsum] at hothers
        obtain ⟨final, hfinal, htotal⟩ := ih.mpr hothers
        exact ⟨final, ⟨next, hnext, hfinal⟩, htotal⟩

/-- Once there is a currency, adding up rules fails at their first failure. -/
theorem tallyRules_eq_error_iff {currency : String}
    (hcurrency : currencyOf settings bag = .ok currency) :
    (tallyRules settings bag rules).outcome = .error error ↔ FirstFailure bag rules error := by
  rw [tallyRules, Metered.outcome_bind, Metered.outcome_ofExcept, hcurrency]
  show (rules.foldlM (Tally.take settings bag) ⟨[], [], Money.zero currency⟩).outcome = _ ↔ _
  rw [Metered.outcome_foldlM, foldlM_eq_error_iff, FirstFailure]
  refine exists_congr fun before => exists_congr fun compiled => exists_congr fun after => ?_
  constructor
  · rintro ⟨hsplit, tally, htally, herror⟩
    exact ⟨_, hsplit, exists_foldlM_take_iff.mp ⟨tally, htally, rfl⟩,
      Tally.take_eq_error_iff.mp herror⟩
  · rintro ⟨sum, hsplit, hsum, herror⟩
    have hfolded : ∃ tally, before.foldlM (fun tally compiled =>
        (Tally.take settings bag tally compiled).outcome) ⟨[], [], Money.zero currency⟩ =
        .ok tally ∧ tally.total.amount = sum := exists_foldlM_take_iff.mpr hsum
    obtain ⟨tally, htally, rfl⟩ := hfolded
    exact ⟨hsplit, tally, htally, Tally.take_eq_error_iff.mpr herror⟩

/-! ## Errors -/

/-- The first failure among faithful rules tells one of them, or it is that of the sum. -/
theorem FirstFailure.cases (hfaithful : ∀ compiled ∈ rules, compiled.Faithful)
    (h : FirstFailure bag rules error) :
    (∃ compiled ∈ rules, compiled.Blames bag error) ∨
      ∃ sum amount, error = .arithmetic (.amountOverflow sum amount) := by
  obtain ⟨before, compiled, after, sum, rfl, -, hfails⟩ := h
  have hmem : compiled ∈ before ++ compiled :: after := by simp
  cases hfails with
  | execution hfails => exact Or.inl ⟨compiled, hmem, hfails.blames (hfaithful compiled hmem)⟩
  | overflow => exact Or.inr ⟨_, _, rfl⟩

/-- Each condition of rules that add up has a value. -/
theorem AddUp.exists_condition {sum total : Decimal} (h : AddUp bag sum rules total) :
    ∀ compiled ∈ rules, ∀ condition, compiled.condition = some condition →
      ∃ value, condition.evaluate (compiled.source bag) = .ok value := by
  induction h with
  | nil =>
    intro compiled hcompiled
    cases hcompiled
  | cons hfirst hothers ih =>
    refine List.forall_mem_cons.mpr ⟨?_, ih⟩
    intro condition hcondition
    cases hfirst with
    | skipped hskipped =>
      obtain ⟨formula, value, hformula, hvalue, -⟩ := CompiledRule.isSkipped_iff.mp hskipped
      rw [hcondition] at hformula
      cases hformula
      exact ⟨value, hvalue⟩
    | applied happlies hamount hnext =>
      obtain ⟨value, hvalue, -⟩ := happlies condition hcondition
      exact ⟨value, hvalue⟩

namespace Catalog

variable {catalog : Catalog} {date : Date} {country : String}

/-- Without a currency a breakdown fails, and no formula is evaluated. -/
theorem breakdown_of_currencyOf_error (h : currencyOf settings bag = .error error) :
    catalog.breakdown settings bag date country =
      ⟨.error error, [.calculation country false 0]⟩ := by
  have htally : tallyRules settings bag (catalog.applicable ⟨country, none, date⟩) =
      ⟨.error error, []⟩ := by
    rw [tallyRules, h]
    rfl
  rw [breakdown, htally]
  rfl

/-- The rules of a breakdown add up to its total. -/
theorem addUp_of_breakdown {result : CountryBreakdown}
    (h : (catalog.breakdown settings bag date country).outcome = .ok result) :
    AddUp bag Decimal.zero (catalog.applicable ⟨country, none, date⟩) result.total.amount := by
  obtain ⟨tally, htally, rfl⟩ := breakdown_eq_ok_iff.mp h
  rw [tallyRules, Metered.outcome_bind, bind_eq_ok_iff] at htally
  obtain ⟨currency, -, htally⟩ := htally
  rw [Metered.outcome_foldlM] at htally
  exact exists_foldlM_take_iff.mp ⟨tally, htally, rfl⟩

/-- **A breakdown fails at the first failure.** If no currency is asked for that has the form of
one, it fails for the currency and evaluates no formula. Otherwise it fails exactly at the first
applicable rule whose condition has no value, which applies but whose expression has none, or whose
amount makes the sum of those before it overflow. In the first two cases the error holds the rule,
the text of the formula, and beneath them what is wrong with a parameter of the formula or with its
arithmetic; in the last it is that of the sum. So each condition has a value where a breakdown
succeeds, and no other errors are possible. -/
theorem breakdown_fails_at_first_failure (hreachable : catalog.Reachable)
    (settings : EngineSettings) (bag : ParameterBag) (date : Date) (country : String) :
    let rules := catalog.applicable ⟨country, none, date⟩
    let breakdown := catalog.breakdown settings bag date country
    ((¬ ∃ code, AsksFor settings bag code ∧ IsCurrencyCode code) →
      ∃ value, breakdown = ⟨.error (.invalidCurrency value), [.calculation country false 0]⟩) ∧
    ((∃ code, AsksFor settings bag code ∧ IsCurrencyCode code) →
      ∀ error, breakdown.outcome = .error error ↔ FirstFailure bag rules error) ∧
    (∀ result, breakdown.outcome = .ok result → ∀ compiled ∈ rules, ∀ condition,
      compiled.condition = some condition →
        ∃ value, condition.evaluate (compiled.source bag) = .ok value) ∧
    ∀ error, breakdown.outcome = .error error →
      (∃ value, error = .invalidCurrency value) ∨
      (∃ compiled ∈ rules, compiled.Blames bag error) ∨
      ∃ sum amount, error = .arithmetic (.amountOverflow sum amount) := by
  intro rules breakdown
  have hfails : ∀ {currency}, currencyOf settings bag = .ok currency →
      ∀ error, breakdown.outcome = .error error ↔ FirstFailure bag rules error := by
    intro currency hcurrency error
    rw [← tallyRules_eq_error_iff hcurrency]
    exact breakdown_eq_error_iff
  refine ⟨?_, ?_, ?_, ?_⟩
  · intro hnone
    cases hcurrency : currencyOf settings bag with
    | ok currency =>
      obtain ⟨code, hasks, hcode, -⟩ := currencyOf_eq_ok_iff.mp hcurrency
      exact absurd ⟨code, hasks, hcode⟩ hnone
    | error error =>
      obtain ⟨value, rfl⟩ := exists_of_currencyOf_error hcurrency
      exact ⟨value, breakdown_of_currencyOf_error hcurrency⟩
  · rintro ⟨code, hasks, hcode⟩
    exact hfails (currencyOf_eq_ok_iff.mpr ⟨code, hasks, hcode, rfl⟩)
  · intro result hresult
    exact (addUp_of_breakdown hresult).exists_condition
  · intro error herror
    cases hcurrency : currencyOf settings bag with
    | ok currency =>
      refine Or.inr (((hfails hcurrency error).mp herror).cases ?_)
      intro compiled hcompiled
      exact hreachable.sound.faithful compiled (mem_applicable.mp hcompiled).1
    | error cause =>
      obtain ⟨value, rfl⟩ := exists_of_currencyOf_error hcurrency
      have hresult : breakdown.outcome = .error (.invalidCurrency value) :=
        congrArg Metered.outcome (breakdown_of_currencyOf_error hcurrency)
      rw [hresult] at herror
      cases herror
      exact Or.inl ⟨value, rfl⟩

/-- A flat fee, and a surcharge on turnovers above a thousand. -/
def flatFeeWithSurcharge : Catalog :=
  empty.afterAll [.load (plainRule "fee" "DE" "100" none),
    .load (plainRule "surcharge" "DE" "25" (some "turnover - 1000"))]

/-- Without a turnover the fee applies, but the condition of the surcharge has no value. -/
theorem breakdown_fails_at_first_failure_surcharge :
    let date : Date := ⟨2024, 2, 29, by decide⟩
    let rules := flatFeeWithSurcharge.applicable ⟨"DE", none, date⟩
    flatFeeWithSurcharge.Reachable ∧ AsksFor {} .empty "EUR" ∧ IsCurrencyCode "EUR" ∧
    FirstFailure .empty rules
      (.ruleFailed "surcharge" .condition "turnover - 1000" (.parameterMissing "turnover")) := by
  intro date rules
  have hreachable : flatFeeWithSurcharge.Reachable := ⟨_, rfl⟩
  have hasks : AsksFor {} .empty "EUR" := Or.inr ⟨rfl, rfl⟩
  have hcode : IsCurrencyCode "EUR" := by decide +kernel
  have hordered : rules = flatFeeWithSurcharge.compiledRules.filter fun one =>
      RuleQuery.accepts ⟨"DE", none, date⟩ one.rule :=
    applicable_of_pairwise (by decide +kernel)
  have herror : (flatFeeWithSurcharge.breakdown {} .empty date "DE").outcome = .error
      (.ruleFailed "surcharge" .condition "turnover - 1000" (.parameterMissing "turnover")) := by
    rw [breakdown, show flatFeeWithSurcharge.applicable ⟨"DE", none, date⟩ = _ from hordered]
    decide +kernel
  obtain ⟨-, hfails, -⟩ := breakdown_fails_at_first_failure hreachable {} .empty date "DE"
  exact ⟨hreachable, hasks, hcode, (hfails ⟨"EUR", hasks, hcode⟩ _).mp herror⟩

end Catalog

end Tariff
