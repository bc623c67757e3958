/-
# What an estimate is made of

An estimate consists of the breakdowns of its countries, each as it is when the country is
calculated alone, and of the sum of their totals. It fails where the first breakdown fails or the
sum overflows. All breakdowns are in the currency of the calculation, so that their totals can
always be added.

* `extend_eq_ok_iff`, `extend_eq_error_iff` : what a country adds to an estimate;
* `foldlM_extend_eq_ok_iff` : what countries add to an estimate, one after the other;
* `estimate_eq_ok_iff`, `estimate_eq_error_iff` : what an estimate is, and where it fails;
* `estimate_made_of_breakdowns` : the same for every currency that can be asked for.
-/
import Tariff.Proofs.Estimate.Failure

namespace Tariff

namespace Catalog

variable {catalog : Catalog} {settings : EngineSettings} {bag : ParameterBag} {date : Date}
variable {country currency : String} {countries : List String} {error : RuleError}

/-- Breakdowns of countries in their order, each calculated on its own. -/
def Breakdowns (catalog : Catalog) (settings : EngineSettings) (bag : ParameterBag) (date : Date)
    (countries : List String) (breakdowns : List CountryBreakdown) : Prop :=
  List.Forall₂ (fun country breakdown =>
    (catalog.breakdown settings bag date country).outcome = .ok breakdown) countries breakdowns

/-- The amounts that the totals of breakdowns have. -/
def totals (breakdowns : List CountryBreakdown) : List Decimal :=
  breakdowns.map fun breakdown => breakdown.total.amount

/-! ## One country more -/

section

variable (hcurrency : currencyOf settings bag = .ok currency)
  {earlier : List CountryBreakdown} {amount : Decimal} {estimate : CostEstimate}
include hcurrency

/-- The total of a breakdown can be added to what is in the currency of the calculation. -/
theorem add_total {breakdown : CountryBreakdown}
    (h : (catalog.breakdown settings bag date country).outcome = .ok breakdown) :
    Money.add ⟨amount, currency⟩ breakdown.total =
      Money.addAmount ⟨amount, currency⟩ breakdown.total.amount := by
  have hsame := currencyOf_of_breakdown h
  rw [hcurrency] at hsame
  exact Money.add_eq_addAmount (Except.ok.inj hsame) (toUpper_of_currencyOf hcurrency)

/-- A country adds its breakdown, and the total of the breakdown. -/
theorem extend_eq_ok_iff :
    (catalog.extend settings bag date ⟨earlier, ⟨amount, currency⟩⟩ country).outcome =
        .ok estimate ↔
      ∃ breakdown sum, (catalog.breakdown settings bag date country).outcome = .ok breakdown ∧
        amount.add? breakdown.total.amount = some sum ∧
        estimate = ⟨earlier ++ [breakdown], ⟨sum, currency⟩⟩ := by
  rw [extend, Metered.outcome_bind, bind_eq_ok_iff]
  constructor
  · rintro ⟨breakdown, hbreakdown, h⟩
    rw [Metered.outcome_bind, Metered.outcome_ofExcept, add_total hcurrency hbreakdown,
      bind_eq_ok_iff] at h
    obtain ⟨total, htotal, hnext⟩ := h
    obtain ⟨sum, hsum, rfl⟩ := Money.addAmount_eq_ok_iff.mp htotal
    cases hnext
    exact ⟨breakdown, sum, hbreakdown, hsum, rfl⟩
  · rintro ⟨breakdown, sum, hbreakdown, hsum, rfl⟩
    refine ⟨breakdown, hbreakdown, ?_⟩
    rw [Metered.outcome_bind, Metered.outcome_ofExcept, add_total hcurrency hbreakdown,
      bind_eq_ok_iff]
    exact ⟨_, Money.addAmount_eq_ok_iff.mpr ⟨sum, hsum, rfl⟩, rfl⟩

/-- A country that cannot be added has no breakdown, or its total makes the sum overflow. -/
theorem extend_eq_error_iff :
    (catalog.extend settings bag date ⟨earlier, ⟨amount, currency⟩⟩ country).outcome =
        .error error ↔
      (catalog.breakdown settings bag date country).outcome = .error error ∨
      ∃ breakdown, (catalog.breakdown settings bag date country).outcome = .ok breakdown ∧
        amount.add? breakdown.total.amount = none ∧
        error = .arithmetic (.amountOverflow amount breakdown.total.amount) := by
  rw [extend, Metered.outcome_bind, bind_eq_error_iff]
  refine or_congr Iff.rfl (exists_congr fun breakdown => and_congr_right fun hbreakdown => ?_)
  rw [Metered.outcome_bind, Metered.outcome_ofExcept, add_total hcurrency hbreakdown,
    bind_eq_error_iff, Money.addAmount_eq_error_iff]
  constructor
  · rintro (h | ⟨total, -, h⟩)
    · exact h
    · cases h
  · exact Or.inl

/-! ## All countries -/

/-- Countries add their breakdowns in their order, and the totals of these. -/
theorem foldlM_extend_eq_ok_iff :
    countries.foldlM (fun state country => (catalog.extend settings bag date state country).outcome)
        ⟨earlier, ⟨amount, currency⟩⟩ = .ok estimate ↔
      ∃ breakdowns total, catalog.Breakdowns settings bag date countries breakdowns ∧
        (totals breakdowns).foldlM Decimal.add? amount = some total ∧
        estimate = ⟨earlier ++ breakdowns, ⟨total, currency⟩⟩ := by
  -- The induction is on the countries to come; what came before them is left free.
  induction countries generalizing earlier amount with
  | nil =>
    constructor
    · intro h
      cases h
      exact ⟨[], amount, .nil, rfl, by rw [List.append_nil]⟩
    · rintro ⟨breakdowns, total, hbreakdowns, htotal, rfl⟩
      cases hbreakdowns
      cases htotal
      rw [List.append_nil]
      rfl
  | cons country countries ih =>
    rw [List.foldlM_cons, bind_eq_ok_iff]
    constructor
    · rintro ⟨next, hnext, hrest⟩
      obtain ⟨breakdown, sum, hbreakdown, hsum, rfl⟩ := (extend_eq_ok_iff hcurrency).mp hnext
      obtain ⟨breakdowns, total, hbreakdowns, htotal, rfl⟩ := ih.mp hrest
      refine ⟨breakdown :: breakdowns, total, .cons hbreakdown hbreakdowns, ?_, ?_⟩
      · exact Option.bind_eq_some_iff.mpr ⟨sum, hsum, htotal⟩
      · rw [List.append_assoc, List.singleton_append]
    · rintro ⟨_ | ⟨breakdown, breakdowns⟩, total, hbreakdowns, htotal, rfl⟩
      · cases hbreakdowns
      obtain ⟨hbreakdown, hbreakdowns⟩ := List.forall₂_cons.mp hbreakdowns
      obtain ⟨sum, hsum, htotal⟩ := Option.bind_eq_some_iff.mp htotal
      refine ⟨_, (extend_eq_ok_iff hcurrency).mpr ⟨breakdown, sum, hbreakdown, hsum, rfl⟩,
        ih.mpr ⟨breakdowns, total, hbreakdowns, htotal, ?_⟩⟩
      rw [List.append_assoc, List.singleton_append]

/-- An estimate starts from no money in the currency of the calculation. -/
theorem outcome_estimate :
    (catalog.estimate settings bag date countries).outcome =
      countries.foldlM (fun state country =>
        (catalog.extend settings bag date state country).outcome)
        ⟨[], ⟨Decimal.zero, currency⟩⟩ := by
  have hzero : Money.zero currency = ⟨Decimal.zero, currency⟩ :=
    congrArg (Money.mk Decimal.zero) (toUpper_of_currencyOf hcurrency)
  rw [estimate, Metered.outcome_bind, Metered.outcome_ofExcept, hcurrency, ← hzero]
  exact Metered.outcome_foldlM _ _ _

/-- An estimate consists of the breakdowns of its countries and of the sum of their totals. -/
theorem estimate_eq_ok_iff :
    (catalog.estimate settings bag date countries).outcome = .ok estimate ↔
      catalog.Breakdowns settings bag date countries estimate.countries ∧
      Decimal.checkedSum (totals estimate.countries) = some estimate.total.amount ∧
      estimate.total.currency = currency := by
  rw [outcome_estimate hcurrency, foldlM_extend_eq_ok_iff hcurrency]
  constructor
  · rintro ⟨breakdowns, total, hbreakdowns, htotal, rfl⟩
    exact ⟨hbreakdowns, htotal, rfl⟩
  · rintro ⟨hbreakdowns, htotal, rfl⟩
    exact ⟨estimate.countries, estimate.total.amount, hbreakdowns, htotal, rfl⟩

end

/-- Where countries cannot be added up: at the first whose breakdown fails, or whose total makes
the sum of those before it overflow. -/
def FailsAt (catalog : Catalog) (settings : EngineSettings) (bag : ParameterBag) (date : Date)
    (countries : List String) (error : RuleError) : Prop :=
  ∃ before country after breakdowns sum, countries = before ++ country :: after ∧
    catalog.Breakdowns settings bag date before breakdowns ∧
    Decimal.checkedSum (totals breakdowns) = some sum ∧
    ((catalog.breakdown settings bag date country).outcome = .error error ∨
      ∃ breakdown, (catalog.breakdown settings bag date country).outcome = .ok breakdown ∧
        sum.add? breakdown.total.amount = none ∧
        error = .arithmetic (.amountOverflow sum breakdown.total.amount))

theorem estimate_eq_error_iff (hcurrency : currencyOf settings bag = .ok currency) :
    (catalog.estimate settings bag date countries).outcome = .error error ↔
      catalog.FailsAt settings bag date countries error := by
  rw [outcome_estimate hcurrency, foldlM_eq_error_iff, FailsAt]
  refine exists_congr fun before => exists_congr fun country => exists_congr fun after => ?_
  constructor
  · rintro ⟨hsplit, next, hnext, herror⟩
    obtain ⟨breakdowns, sum, hbreakdowns, hsum, rfl⟩ :=
      (foldlM_extend_eq_ok_iff hcurrency).mp hnext
    exact ⟨breakdowns, sum, hsplit, hbreakdowns, hsum, (extend_eq_error_iff hcurrency).mp herror⟩
  · rintro ⟨breakdowns, sum, hsplit, hbreakdowns, hsum, herror⟩
    exact ⟨hsplit, _, (foldlM_extend_eq_ok_iff hcurrency).mpr
      ⟨breakdowns, sum, hbreakdowns, hsum, rfl⟩, (extend_eq_error_iff hcurrency).mpr herror⟩

/-- Without a currency there is no estimate. -/
theorem estimate_of_currencyOf_error (h : currencyOf settings bag = .error error) :
    (catalog.estimate settings bag date countries).outcome = .error error := by
  rw [estimate, Metered.outcome_bind, Metered.outcome_ofExcept, h]
  rfl

/-- Once there is a currency, countries fail for a rule or for a sum that overflows. -/
theorem FailsAt.cases (hcurrency : currencyOf settings bag = .ok currency)
    (h : catalog.FailsAt settings bag date countries error) :
    (∃ id phase formula cause, error = .ruleFailed id phase formula cause) ∨
      ∃ left right, error = .arithmetic (.amountOverflow left right) := by
  obtain ⟨before, country, after, breakdowns, sum, -, -, -, herror | ⟨breakdown, -, -, herror⟩⟩ := h
  · rw [breakdown_eq_error_iff, tallyRules_eq_error_iff hcurrency] at herror
    obtain ⟨-, compiled, -, sum, -, -, hfails⟩ := herror
    rcases hfails.cases with hrule | ⟨amount, hsum⟩
    · exact Or.inl ⟨compiled.id, hrule⟩
    · exact Or.inr ⟨sum, amount, hsum⟩
  · exact Or.inr ⟨_, _, herror⟩

/-! ## Every currency -/

/-- **An estimate is made of the breakdowns of its countries.** It fails for the currency exactly
if none is asked for that has the form of a currency. Otherwise it consists of the breakdowns of
the countries, in their order, and of the sum of their totals, all in that currency in upper case;
or it fails where the first of the breakdowns or the sum does. Its currencies always agree. -/
theorem estimate_made_of_breakdowns (catalog : Catalog) (settings : EngineSettings)
    (bag : ParameterBag) (date : Date) (countries : List String) :
    let outcome := (catalog.estimate settings bag date countries).outcome
    ((∃ value, outcome = .error (.invalidCurrency value)) ↔
      ¬ ∃ code, AsksFor settings bag code ∧ IsCurrencyCode code) ∧
    (∀ code, AsksFor settings bag code → IsCurrencyCode code →
      (∀ error, outcome = .error error ↔ catalog.FailsAt settings bag date countries error) ∧
      (∀ estimate, outcome = .ok estimate ↔
        catalog.Breakdowns settings bag date countries estimate.countries ∧
        Decimal.checkedSum (totals estimate.countries) = some estimate.total.amount ∧
        estimate.total.currency = code.toUpper) ∧
      IsCurrency code.toUpper ∧
      ∀ country breakdown, (catalog.breakdown settings bag date country).outcome = .ok breakdown →
        breakdown.total.currency = code.toUpper) ∧
    ∀ expected actual, outcome ≠ .error (.currencyMismatch expected actual) := by
  intro outcome
  have hasked : ∀ {code}, AsksFor settings bag code → IsCurrencyCode code →
      currencyOf settings bag = .ok code.toUpper :=
    fun hasks hcode => currencyOf_eq_ok_iff.mpr ⟨_, hasks, hcode, rfl⟩
  refine ⟨⟨?_, ?_⟩, ?_, ?_⟩
  · rintro ⟨value, hvalue⟩ ⟨code, hasks, hcode⟩
    have hcurrency := hasked hasks hcode
    rcases ((estimate_eq_error_iff hcurrency).mp hvalue).cases hcurrency with
      ⟨id, phase, formula, cause, h⟩ | ⟨left, right, h⟩ <;> cases h
  · intro hnone
    cases hcurrency : currencyOf settings bag with
    | ok currency =>
      obtain ⟨code, hasks, hcode, -⟩ := currencyOf_eq_ok_iff.mp hcurrency
      exact absurd ⟨code, hasks, hcode⟩ hnone
    | error cause =>
      obtain ⟨value, rfl⟩ := exists_of_currencyOf_error hcurrency
      exact ⟨value, estimate_of_currencyOf_error hcurrency⟩
  · intro code hasks hcode
    have hcurrency := hasked hasks hcode
    refine ⟨fun _ => estimate_eq_error_iff hcurrency, fun _ => estimate_eq_ok_iff hcurrency,
      hcode.isCurrency, fun country breakdown h => ?_⟩
    have hsame := currencyOf_of_breakdown h
    rw [hcurrency] at hsame
    exact (Except.ok.inj hsame).symm
  · intro expected actual h
    cases hcurrency : currencyOf settings bag with
    | ok currency =>
      rcases ((estimate_eq_error_iff hcurrency).mp h).cases hcurrency with
        ⟨id, phase, formula, cause, h⟩ | ⟨left, right, h⟩ <;> cases h
    | error cause =>
      obtain ⟨value, rfl⟩ := exists_of_currencyOf_error hcurrency
      have h := (estimate_of_currencyOf_error hcurrency).symm.trans h
      cases h

/-! ## A catalog for examples -/

/-- A rule for each of three countries: a fee, the third of a share and the third of a levy. -/
def threeFees : Catalog :=
  empty.afterAll [.load (plainRule "fee" "DE" "fee" none),
    .load (plainRule "share" "FR" "share / 3" none), .load (plainRule "levy" "IT" "levy / 3" none)]

/-- A country that is asked for twice and one without rules. -/
theorem estimate_made_of_breakdowns_twice :
    let bag : ParameterBag := Table.ofList [("currency", .text "CHF"), ("fee", .integer 100)]
    let date : Date := ⟨2024, 2, 29, by decide⟩
    AsksFor {} bag "CHF" ∧ IsCurrencyCode "CHF" ∧ ∃ estimate,
      (threeFees.estimate {} bag date ["DE", "ES", "DE"]).outcome = .ok estimate ∧
      threeFees.Breakdowns {} bag date ["DE", "ES", "DE"] estimate.countries ∧
      IsCurrency estimate.total.currency := by
  intro bag date
  have hasks : AsksFor {} bag "CHF" := Or.inl rfl
  have hcode : IsCurrencyCode "CHF" := by decide +kernel
  obtain ⟨-, hcurrency, -⟩ := estimate_made_of_breakdowns threeFees {} bag date ["DE", "ES", "DE"]
  obtain ⟨-, hok, hupper, -⟩ := hcurrency "CHF" hasks hcode
  have hsome : (threeFees.estimate {} bag date ["DE", "ES", "DE"]).outcome.isOk = true := by
    decide +kernel
  obtain ⟨estimate, hestimate⟩ := exists_ok_iff_isOk.mpr hsome
  obtain ⟨hbreakdowns, -, hchf⟩ := (hok estimate).mp hestimate
  rw [← hchf] at hupper
  exact ⟨hasks, hcode, estimate, hestimate, hbreakdowns, hupper⟩

end Catalog

end Tariff
