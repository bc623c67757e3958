/-
# Counters of calculations

The counters tell what has come of calculations. A breakdown is counted once, by its success, and
so are the evaluations of its rules up to and including the first that fails. An estimate counts
the breakdowns of its countries up to and including the one that it fails at.

* `counts_execute`, `counts_execute_of_fails` : what a rule counts;
* `counts_tallyRules`, `failureCounted_of_tallyRules` : what rules count that are added up;
* `increase_breakdown`, `counts_breakdown`, `failureCounted_breakdown` : what a breakdown counts;
* `calculatedCountries`, `events_estimate` : the countries that an estimate counts;
* `counters_match_outcomes` : all of this for the catalogs that arise from the empty one.
-/
import Mathlib.Data.List.Infix
import Tariff.Proofs.Estimate.Countries
import Tariff.Proofs.Estimate.Failure
import Tariff.Proofs.Metrics.Counting

namespace Tariff

variable {settings : EngineSettings} {bag : ParameterBag}

/-! ## One rule -/

namespace CompiledRule

variable {compiled : CompiledRule} {traced : Bool} {value : Option Decimal} {error : RuleError}

/-- A formula that yields a number is counted as a success of its phase. -/
theorem events_meterFormula_of_ok {phase : Phase} {formula : Formula} {number : Decimal}
    (h : (compiled.meterFormula phase formula bag).outcome = .ok number) :
    (compiled.meterFormula phase formula bag).events = [.evaluation phase true] := by
  have hok : compiled.evaluateFormula phase formula bag = .ok number := h
  rw [meterFormula, hok]
  rfl

/-- A formula that fails is counted as a failure of its phase. -/
theorem events_meterFormula_of_error {phase : Phase} {formula : Formula}
    (h : (compiled.meterFormula phase formula bag).outcome = .error error) :
    (compiled.meterFormula phase formula bag).events = [.evaluation phase false] := by
  have herror : compiled.evaluateFormula phase formula bag = .error error := h
  rw [meterFormula, herror]
  rfl

/-- A condition that has a value is counted, if there is one. -/
theorem counts_conditionValue (h : (compiled.conditionValue bag).outcome = .ok value) :
    Counts (compiled.conditionValue bag).events (if compiled.condition.isSome then 1 else 0) 0
      none := by
  rw [conditionValue] at h ⊢
  cases hcondition : compiled.condition with
  | none => exact .nil
  | some condition =>
    rw [hcondition] at h
    dsimp only at h ⊢
    rw [Metered.outcome_bind, bind_eq_ok_iff] at h
    obtain ⟨number, hnumber, -⟩ := h
    rw [Metered.events_bind_pure, events_meterFormula_of_ok hnumber]
    exact .condition

/-- A condition that has no value is counted as a failure. -/
theorem counts_conditionValue_of_error (h : (compiled.conditionValue bag).outcome = .error error) :
    Counts (compiled.conditionValue bag).events 0 0 (some .condition) := by
  rw [conditionValue] at h ⊢
  cases hcondition : compiled.condition with
  | none =>
    rw [hcondition] at h
    cases h
  | some condition =>
    rw [hcondition] at h
    dsimp only at h ⊢
    rw [Metered.outcome_bind, bind_eq_error_iff] at h
    obtain hfails | ⟨number, -, h⟩ := h
    · rw [Metered.events_bind_pure, events_meterFormula_of_error hfails]
      exact .failure .condition
    · cases h

/-- A rule that does not apply has only its condition evaluated. -/
theorem events_execute_of_not_holds (h : (compiled.conditionValue bag).outcome = .ok value)
    (hholds : holds value = false) :
    (compiled.execute traced bag).events = (compiled.conditionValue bag).events := by
  rw [execute, Metered.events_bind_of_ok h]
  dsimp only
  rw [hholds]
  exact List.append_nil _

/-- A rule that applies has its condition evaluated and then its expression. -/
theorem events_execute_of_holds (h : (compiled.conditionValue bag).outcome = .ok value)
    (hholds : holds value = true) :
    (compiled.execute traced bag).events =
      (compiled.conditionValue bag).events ++ (compiled.evaluate bag).events := by
  rw [execute, Metered.events_bind_of_ok h]
  dsimp only
  rw [if_pos hholds, Metered.events_bind_pure]

/-- An execution that succeeds counts its condition and, unless the rule is skipped, its
expression. -/
theorem counts_execute {outcome : RuleOutcome}
    (h : (compiled.execute traced bag).outcome = .ok outcome) :
    Counts (compiled.execute traced bag).events (if compiled.condition.isSome then 1 else 0)
      (if !compiled.isSkipped bag then 1 else 0) none := by
  obtain ⟨value, hvalue, ⟨hholds, -⟩ | ⟨hholds, amount, hamount, -⟩⟩ := exists_of_execute h
  · rw [events_execute_of_not_holds hvalue hholds, isSkipped_of_conditionValue hvalue, hholds]
    exact counts_conditionValue hvalue
  · rw [events_execute_of_holds hvalue hholds, isSkipped_of_conditionValue hvalue, hholds,
      evaluate, events_meterFormula_of_ok hamount]
    simpa using (counts_conditionValue hvalue).append .expression

/-- An execution that fails counts the formula that has no value, and before the expression the
condition. -/
theorem counts_execute_of_fails (h : compiled.Fails bag error) :
    ∃ phase formula cause, error = .ruleFailed compiled.id phase formula cause ∧
      Counts (compiled.execute traced bag).events
        (if phase = .expression ∧ compiled.condition.isSome then 1 else 0) 0 (some phase) := by
  cases h with
  | condition hcondition hcause =>
    have hvalue := conditionValue_eq_error_iff.mpr ⟨_, _, hcondition, hcause, rfl⟩
    refine ⟨.condition, _, _, rfl, ?_⟩
    rw [execute, Metered.events_bind_of_error hvalue]
    exact counts_conditionValue_of_error hvalue
  | expression happlies hcause =>
    obtain ⟨value, hvalue, hholds⟩ := exists_holds_iff.mpr happlies
    have hevaluate : (compiled.evaluate bag).events = [.evaluation .expression false] :=
      events_meterFormula_of_error (meterFormula_eq_error_iff.mpr ⟨_, hcause, rfl⟩)
    refine ⟨.expression, _, _, rfl, ?_⟩
    rw [events_execute_of_holds hvalue hholds, hevaluate]
    simpa using (counts_conditionValue hvalue).append (.failure .expression)

/-- Nothing but evaluations is counted in an execution. -/
theorem evaluation_of_mem_execute :
    ∀ event ∈ (compiled.execute traced bag).events,
      ∃ phase succeeded, event = .evaluation phase succeeded := by
  have hmeter : ∀ phase formula, ∀ event ∈ (compiled.meterFormula phase formula bag).events,
      ∃ phase succeeded, event = .evaluation phase succeeded :=
    fun phase formula event hevent => ⟨phase, _, List.mem_singleton.mp hevent⟩
  rw [execute]
  refine Metered.forall_mem_events_bind ?_ fun value => ?_
  · rw [conditionValue]
    cases compiled.condition with
    | none => simp
    | some condition =>
      dsimp only
      rw [Metered.events_bind_pure]
      exact hmeter .condition condition
  · dsimp only
    split
    · rw [Metered.events_bind_pure]
      exact hmeter .expression compiled.expression
    · simp

end CompiledRule

/-! ## All rules -/

namespace Tally

variable {compiled : CompiledRule} {rules : List CompiledRule} {tally next : Tally}

/-- Taking a rule into a tally counts its execution. -/
theorem events_take :
    (Tally.take settings bag tally compiled).events =
      (compiled.execute settings.traceEnabled bag).events := by
  rw [Tally.take]
  cases h : (compiled.execute settings.traceEnabled bag).outcome with
  | error error => exact Metered.events_bind_of_error h
  | ok outcome =>
    rw [Metered.events_bind_of_ok h]
    split
    · rw [Metered.events_bind_pure, Metered.events_ofExcept, List.append_nil]
    · rw [Metered.events_pure, List.append_nil]

/-- A rule that is taken in counts one condition, if it has one, and one expression, unless it is
skipped. -/
theorem counts_take (h : (Tally.take settings bag tally compiled).outcome = .ok next) :
    Counts (Tally.take settings bag tally compiled).events
      (if compiled.condition.isSome then 1 else 0) (if !compiled.isSkipped bag then 1 else 0)
      none := by
  rw [events_take]
  rw [Tally.take, Metered.outcome_bind, bind_eq_ok_iff] at h
  obtain ⟨outcome, houtcome, -⟩ := h
  exact CompiledRule.counts_execute houtcome

/-- Rules that are taken into a tally count their conditions, and the expressions of those that
apply. -/
theorem counts_foldlM_take
    (h : (rules.foldlM (Tally.take settings bag) tally).outcome = .ok next) :
    Counts (rules.foldlM (Tally.take settings bag) tally).events
      (rules.countP fun one => one.condition.isSome) (rules.countP fun one => !one.isSkipped bag)
      none := by
  induction rules generalizing tally with
  | nil => exact .nil
  | cons compiled rules ih =>
    rw [List.foldlM_cons] at h ⊢
    rw [Metered.outcome_bind, bind_eq_ok_iff] at h
    obtain ⟨between, hbetween, hrest⟩ := h
    rw [Metered.events_bind_of_ok hbetween, List.countP_cons, List.countP_cons, Nat.add_comm,
      Nat.add_comm (rules.countP _)]
    exact (counts_take hbetween).append (ih hrest)

end Tally

/-- With a currency, rules are taken in one after the other. -/
theorem events_tallyRules {currency : String} (h : currencyOf settings bag = .ok currency)
    (rules : List CompiledRule) :
    (tallyRules settings bag rules).events =
      (rules.foldlM (Tally.take settings bag) ⟨[], [], Money.zero currency⟩).events := by
  rw [tallyRules, Metered.events_bind_of_ok h, Metered.events_ofExcept, List.nil_append]

/-- Rules that add up count their conditions, and the expressions of those that apply. -/
theorem counts_tallyRules {rules : List CompiledRule} {tally : Tally}
    (h : (tallyRules settings bag rules).outcome = .ok tally) :
    Counts (tallyRules settings bag rules).events (rules.countP fun one => one.condition.isSome)
      (rules.countP fun one => !one.isSkipped bag) none := by
  obtain ⟨currency, hcurrency, h⟩ := bind_eq_ok_iff.mp ((Metered.outcome_bind _ _).symm.trans h)
  rw [events_tallyRules hcurrency]
  exact Tally.counts_foldlM_take h

/-- What is counted when rules do not add up. If one of them fails, its phase is counted as a
failure, after the conditions and the expressions of the rules before it and, if it fails in its
expression, its own condition. Otherwise no failure is counted. -/
inductive FailureCounted (bag : ParameterBag) (rules : List CompiledRule) (events : List Event) :
    RuleError → Prop where
  | rule {before after : List CompiledRule} {compiled : CompiledRule} {phase : Phase}
      {formula : String} {cause : RuleError} (hsplit : rules = before ++ compiled :: after)
      (hfails : compiled.Fails bag (.ruleFailed compiled.id phase formula cause))
      (hcounts : Counts events
        ((before.countP fun one => one.condition.isSome) +
          if phase = .expression ∧ compiled.condition.isSome then 1 else 0)
        (before.countP fun one => !one.isSkipped bag) (some phase)) :
      FailureCounted bag rules events (.ruleFailed compiled.id phase formula cause)
  | other {error : RuleError} {conditions expressions : Nat}
      (hother : ∀ id phase formula cause, error ≠ .ruleFailed id phase formula cause)
      (hcounts : Counts events conditions expressions none) :
      FailureCounted bag rules events error

/-- The error of a rule tells the only phase that is counted as a failure. -/
theorem FailureCounted.failures {rules : List CompiledRule} {events : List Event} {id : String}
    {phase : Phase} {formula : String} {cause : RuleError}
    (h : FailureCounted bag rules events (.ruleFailed id phase formula cause)) (other : Phase) :
    increase (evaluationSeries other false) events = if phase = other then 1 else 0 := by
  generalize herror : RuleError.ruleFailed id phase formula cause = error at h
  cases h with
  | rule _ _ hcounts =>
    cases herror
    simpa using hcounts.failures other
  | other hother => exact absurd herror.symm (hother id phase formula cause)

/-- A failure while rules are tallied is counted for the rule that fails. -/
theorem failureCounted_of_tallyRules {rules : List CompiledRule} {error : RuleError}
    (h : (tallyRules settings bag rules).outcome = .error error) :
    FailureCounted bag rules (tallyRules settings bag rules).events error := by
  cases hcurrency : currencyOf settings bag with
  | error cause =>
    rw [tallyRules, Metered.outcome_bind, Metered.outcome_ofExcept, hcurrency] at h
    cases h
    obtain ⟨value, rfl⟩ := exists_of_currencyOf_error hcurrency
    rw [tallyRules, Metered.events_bind_of_error hcurrency]
    exact .other (by simp) .nil
  | ok currency =>
    rw [events_tallyRules hcurrency]
    rw [tallyRules, Metered.outcome_bind, Metered.outcome_ofExcept, hcurrency] at h
    change (rules.foldlM (Tally.take settings bag) ⟨[], [], Money.zero currency⟩).outcome = _ at h
    rw [Metered.outcome_foldlM, foldlM_eq_error_iff] at h
    obtain ⟨before, compiled, after, rfl, next, hbefore, htake⟩ := h
    rw [← Metered.outcome_foldlM] at hbefore
    have hcounts := Tally.counts_foldlM_take hbefore
    rw [Metered.events_foldlM_of_error hbefore htake, Tally.events_take]
    rw [Tally.take_eq_error_iff] at htake
    cases htake with
    | execution hfails =>
      obtain ⟨phase, formula, cause, rfl, hfailure⟩ := CompiledRule.counts_execute_of_fails hfails
      exact .rule rfl hfails (hcounts.append hfailure)
    | overflow happlies hamount hnone =>
      obtain ⟨outcome, houtcome, -⟩ :=
        CompiledRule.exists_execute_iff.mpr (.applied happlies hamount)
      exact .other (by simp) (hcounts.append (CompiledRule.counts_execute houtcome))

/-- Nothing but evaluations is counted while rules are added up. -/
theorem evaluation_of_mem_tallyRules (settings : EngineSettings) (bag : ParameterBag)
    (rules : List CompiledRule) :
    ∀ event ∈ (tallyRules settings bag rules).events,
      ∃ phase succeeded, event = .evaluation phase succeeded := by
  rw [tallyRules]
  refine Metered.forall_mem_events_bind (by simp) fun currency => ?_
  refine Metered.forall_mem_events_foldlM fun tally compiled _ => ?_
  rw [Tally.events_take]
  exact CompiledRule.evaluation_of_mem_execute

/-! ## Breakdowns -/

namespace Catalog

variable {catalog : Catalog} {date : Date} {country : String} {countries : List String}
variable {series : Series} {error : RuleError}

/-- A breakdown counts what adding up its rules does, and itself. -/
theorem exists_events_breakdown :
    ∃ applied, (catalog.breakdown settings bag date country).events =
      (tallyRules settings bag (catalog.applicable ⟨country, none, date⟩)).events ++
        [.calculation country (catalog.breakdown settings bag date country).outcome.isOk
          applied] := by
  rw [breakdown]
  split
  · exact ⟨_, rfl⟩
  · exact ⟨_, rfl⟩

/-- A breakdown is counted once, by its country and its success. -/
theorem increase_breakdown (hname : series.name = "country_cost_calculations_total") :
    increase series (catalog.breakdown settings bag date country).events =
      if series = calculationSeries country
          (catalog.breakdown settings bag date country).outcome.isOk then 1 else 0 := by
  obtain ⟨applied, hevents⟩ := @exists_events_breakdown settings bag catalog date country
  rw [hevents, increase_append, increase_calculation hname,
    increase_of_evaluations hname (evaluation_of_mem_tallyRules settings bag _), Nat.zero_add]

/-- A breakdown counts the conditions of its rules and the expressions of those that apply. -/
theorem counts_breakdown {result : CountryBreakdown}
    (h : (catalog.breakdown settings bag date country).outcome = .ok result) :
    Counts (catalog.breakdown settings bag date country).events
      ((catalog.applicable ⟨country, none, date⟩).countP fun one => one.condition.isSome)
      result.applied.length none := by
  obtain ⟨tally, htally, rfl⟩ := breakdown_eq_ok_iff.mp h
  obtain ⟨applied, hevents⟩ := @exists_events_breakdown settings bag catalog date country
  have hlength := (accounts_of_tallyRules htally).1.applied.length_eq
  rw [← List.countP_eq_length_filter] at hlength
  rw [hevents, ← hlength]
  exact (counts_tallyRules htally).append_calculation country _ applied

/-- A breakdown that fails counts up to the rule that fails. -/
theorem failureCounted_breakdown
    (h : (catalog.breakdown settings bag date country).outcome = .error error) :
    FailureCounted bag (catalog.applicable ⟨country, none, date⟩)
      (catalog.breakdown settings bag date country).events error := by
  obtain ⟨applied, hevents⟩ := @exists_events_breakdown settings bag catalog date country
  rw [hevents]
  cases failureCounted_of_tallyRules (breakdown_eq_error_iff.mp h) with
  | rule hsplit hfails hcounts =>
    exact .rule hsplit hfails (hcounts.append_calculation country _ applied)
  | other hother hcounts => exact .other hother (hcounts.append_calculation country _ applied)

/-! ## Estimates -/

/-- The countries of an estimate that are calculated: those up to and including the first that it
fails at, and none if it has no currency. -/
def calculatedCountries (catalog : Catalog) (settings : EngineSettings) (bag : ParameterBag)
    (date : Date) (countries : List String) : List String :=
  (countries.inits.find? fun first =>
    !(catalog.estimate settings bag date first).outcome.isOk).getD countries

/-- Extending an estimate counts what the breakdown of the country does. -/
theorem events_extend (estimate : CostEstimate) :
    (catalog.extend settings bag date estimate country).events =
      (catalog.breakdown settings bag date country).events := by
  rw [extend]
  cases h : (catalog.breakdown settings bag date country).outcome with
  | error error => exact Metered.events_bind_of_error h
  | ok breakdown =>
    rw [Metered.events_bind_of_ok h, Metered.events_bind_pure, Metered.events_ofExcept,
      List.append_nil]

/-- An estimate of countries goes on from that of the first of them. -/
theorem estimate_append (first others : List String) :
    catalog.estimate settings bag date (first ++ others) =
      catalog.estimate settings bag date first >>= fun estimate =>
        others.foldlM (catalog.extend settings bag date) estimate := by
  rw [estimate, estimate, bind_assoc]
  congr 1
  funext currency
  exact List.foldlM_append

/-- The first countries of an estimate that succeeds have one. -/
theorem isOk_estimate_first {first : List String} (hfirst : first <+: countries)
    (h : (catalog.estimate settings bag date countries).outcome.isOk = true) :
    (catalog.estimate settings bag date first).outcome.isOk = true := by
  obtain ⟨others, rfl⟩ := hfirst
  obtain ⟨estimate, hestimate⟩ := exists_ok_iff_isOk.mpr h
  rw [estimate_append, Metered.outcome_bind, bind_eq_ok_iff] at hestimate
  obtain ⟨between, hbetween, -⟩ := hestimate
  exact exists_ok_iff_isOk.mp ⟨between, hbetween⟩

/-- No first countries of an estimate that succeeds make it fail. -/
theorem find?_inits_of_isOk
    (h : (catalog.estimate settings bag date countries).outcome.isOk = true) :
    countries.inits.find? (fun first =>
      !(catalog.estimate settings bag date first).outcome.isOk) = none := by
  rw [List.find?_eq_none]
  intro first hfirst
  rw [isOk_estimate_first ((List.mem_inits _ _).mp hfirst) h]
  simp

/-- The shortest prefix of a list is empty. -/
theorem exists_inits_eq_cons {α : Type} (l : List α) : ∃ others, l.inits = [] :: others := by
  cases l with
  | nil => exact ⟨[], rfl⟩
  | cons x l => exact ⟨_, rfl⟩

/-- An estimate that succeeds has calculated all of its countries. -/
theorem calculatedCountries_of_isOk
    (h : (catalog.estimate settings bag date countries).outcome.isOk = true) :
    catalog.calculatedCountries settings bag date countries = countries := by
  rw [calculatedCountries, find?_inits_of_isOk h]
  rfl

/-- The countries up to and including the first at which an estimate fails are calculated. -/
theorem calculatedCountries_of_split {before after : List String}
    (hbefore : (catalog.estimate settings bag date before).outcome.isOk = true)
    (hfails : (catalog.estimate settings bag date (before ++ [country])).outcome.isOk = false) :
    catalog.calculatedCountries settings bag date (before ++ country :: after) =
      before ++ [country] := by
  obtain ⟨others, hothers⟩ := exists_inits_eq_cons after
  have hinits : (before ++ country :: after).inits =
      before.inits ++ (before ++ [country]) ::
        others.map fun rest => before ++ country :: rest := by
    rw [List.inits_append, List.inits_cons, hothers]
    simp
  rw [calculatedCountries, hinits, List.find?_append, find?_inits_of_isOk hbefore,
    List.find?_cons_of_pos (by simp [hfails])]
  rfl

/-- Without a currency no country is calculated. -/
theorem calculatedCountries_of_currencyOf_error (h : currencyOf settings bag = .error error) :
    catalog.calculatedCountries settings bag date countries = [] := by
  obtain ⟨others, hothers⟩ := exists_inits_eq_cons countries
  have hnil : (catalog.estimate settings bag date []).outcome = .error error :=
    estimate_of_currencyOf_error h
  rw [calculatedCountries, hothers, List.find?_cons_of_pos (by rw [hnil]; rfl)]
  rfl

/-- Without a currency nothing is counted. -/
theorem events_estimate_of_currencyOf_error (h : currencyOf settings bag = .error error) :
    (catalog.estimate settings bag date countries).events = [] := by
  rw [estimate, Metered.events_bind_of_error h]
  rfl

/-- An estimate goes on with a country by its breakdown. -/
theorem events_estimate_append_singleton
    (h : (catalog.estimate settings bag date countries).outcome.isOk = true) :
    (catalog.estimate settings bag date (countries ++ [country])).events =
      (catalog.estimate settings bag date countries).events ++
        (catalog.breakdown settings bag date country).events := by
  obtain ⟨estimate, hestimate⟩ := exists_ok_iff_isOk.mpr h
  rw [estimate_append, Metered.events_bind_of_ok hestimate, List.foldlM_cons,
    ← events_extend estimate]
  exact congrArg _ (congrArg Metered.events (bind_pure _))

/-- An estimate that succeeds counts the breakdowns of all of its countries. -/
theorem events_estimate_of_isOk
    (h : (catalog.estimate settings bag date countries).outcome.isOk = true) :
    (catalog.estimate settings bag date countries).events =
      countries.flatMap fun country => (catalog.breakdown settings bag date country).events := by
  -- The induction is on the last country, since the estimate of the others comes first.
  induction countries using List.reverseRecOn with
  | nil =>
    obtain ⟨estimate, hestimate⟩ := exists_ok_iff_isOk.mpr h
    obtain ⟨currency, hcurrency, -⟩ :=
      bind_eq_ok_iff.mp ((Metered.outcome_bind _ _).symm.trans hestimate)
    rw [Catalog.estimate, Metered.events_bind_of_ok hcurrency]
    rfl
  | append_singleton countries country ih =>
    have hfirst := isOk_estimate_first (List.prefix_append countries [country]) h
    rw [events_estimate_append_singleton hfirst, ih hfirst, List.flatMap_append,
      List.flatMap_singleton]

/-- Where an estimate fails for a country, those before it have breakdowns, and it has none or its
total makes the sum overflow. -/
theorem calculatedCountries_of_error {currency : String}
    (hcurrency : currencyOf settings bag = .ok currency)
    (h : (catalog.estimate settings bag date countries).outcome = .error error) :
    ∃ before country after, countries = before ++ country :: after ∧
      catalog.calculatedCountries settings bag date countries = before ++ [country] ∧
      (catalog.estimate settings bag date before).outcome.isOk = true ∧
      (catalog.estimate settings bag date (before ++ [country])).outcome = .error error ∧
      (∀ earlier ∈ before, (catalog.breakdown settings bag date earlier).outcome.isOk = true) ∧
      ((catalog.breakdown settings bag date country).outcome = .error error ∨
        (catalog.breakdown settings bag date country).outcome.isOk = true ∧
          ∃ left right, error = .arithmetic (.amountOverflow left right)) := by
  obtain ⟨before, country, after, breakdowns, sum, rfl, hbreakdowns, hsum, hfails⟩ :=
    (estimate_eq_error_iff hcurrency).mp h
  have hbefore : (catalog.estimate settings bag date before).outcome =
      .ok ⟨breakdowns, ⟨sum, currency⟩⟩ :=
    (estimate_eq_ok_iff hcurrency).mpr ⟨hbreakdowns, hsum, rfl⟩
  have hlast : (catalog.estimate settings bag date (before ++ [country])).outcome = .error error :=
    (estimate_eq_error_iff hcurrency).mpr
      ⟨before, country, [], breakdowns, sum, rfl, hbreakdowns, hsum, hfails⟩
  have hok := exists_ok_iff_isOk.mp ⟨_, hbefore⟩
  refine ⟨before, country, after, rfl,
    calculatedCountries_of_split hok (exists_error_iff_isOk.mp ⟨error, hlast⟩), hok, hlast, ?_, ?_⟩
  · intro earlier hearlier
    obtain ⟨result, -, hresult⟩ := exists_mem_of_forall₂ hbreakdowns hearlier
    exact exists_ok_iff_isOk.mp ⟨result, hresult⟩
  · rcases hfails with herror | ⟨result, hresult, -, rfl⟩
    · exact Or.inl herror
    · exact Or.inr ⟨exists_ok_iff_isOk.mp ⟨result, hresult⟩, _, _, rfl⟩

/-- An estimate counts the breakdowns of the countries that are calculated. -/
theorem events_estimate :
    (catalog.estimate settings bag date countries).events =
      (catalog.calculatedCountries settings bag date countries).flatMap fun country =>
        (catalog.breakdown settings bag date country).events := by
  cases houtcome : (catalog.estimate settings bag date countries).outcome with
  | ok estimate =>
    have hok := exists_ok_iff_isOk.mp ⟨estimate, houtcome⟩
    rw [calculatedCountries_of_isOk hok, events_estimate_of_isOk hok]
  | error error =>
    cases hcurrency : currencyOf settings bag with
    | error cause =>
      rw [calculatedCountries_of_currencyOf_error hcurrency,
        events_estimate_of_currencyOf_error hcurrency, List.flatMap_nil]
    | ok currency =>
      obtain ⟨before, country, after, rfl, hcalculated, hbefore, hlast, -⟩ :=
        calculatedCountries_of_error hcurrency houtcome
      rw [hcalculated, List.flatMap_append, List.flatMap_singleton,
        ← events_estimate_of_isOk hbefore, ← events_estimate_append_singleton hbefore,
        List.append_cons, estimate_append, Metered.events_bind_of_error hlast]

/-- An estimate counts each country that is calculated once, by its success. -/
theorem increase_estimate (hname : series.name = "country_cost_calculations_total") :
    increase series (catalog.estimate settings bag date countries).events =
      (catalog.calculatedCountries settings bag date countries).countP fun country =>
        series = calculationSeries country
          (catalog.breakdown settings bag date country).outcome.isOk := by
  rw [events_estimate]
  apply increase_flatMap
  intro country _
  simpa using increase_breakdown hname

/-! ## All counters -/

/-- **Counters match outcomes.** A breakdown raises exactly one counter of calculations, by one:
that of its country and its success. If it succeeds, it counts the conditions of the applicable
rules and the expressions of those that apply, and no failure. If an applicable rule fails, its
phase is the only failure that is counted, after the conditions and the expressions of the rules
before it and, if it fails in its expression, its own condition; the ids of the rules are distinct,
so that the error tells which one it is. Any other error comes with no failure of an evaluation. An
estimate raises the counters of calculations once for each country up to and including the one that
it fails at, or for all of them, and no counter at all without a currency. -/
theorem counters_match_outcomes (hreachable : catalog.Reachable) (settings : EngineSettings)
    (bag : ParameterBag) (date : Date) (country : String) (countries : List String) :
    let rules := catalog.applicable ⟨country, none, date⟩
    let breakdown := catalog.breakdown settings bag date
    let estimate := catalog.estimate settings bag date countries
    let calculated := catalog.calculatedCountries settings bag date countries
    (∀ series : Series, series.name = "country_cost_calculations_total" →
      increase series (breakdown country).events =
        if series = calculationSeries country (breakdown country).outcome.isOk then 1 else 0) ∧
    (∀ result, (breakdown country).outcome = .ok result →
      Counts (breakdown country).events (rules.countP fun one => one.condition.isSome)
        result.applied.length none) ∧
    (rules.map CompiledRule.id).Nodup ∧
    (∀ error, (breakdown country).outcome = .error error →
      FailureCounted bag rules (breakdown country).events error) ∧
    (∀ series : Series, series.name = "country_cost_calculations_total" →
      increase series estimate.events = calculated.countP fun country =>
        series = calculationSeries country (breakdown country).outcome.isOk) ∧
    (estimate.outcome.isOk = true → calculated = countries) ∧
    (∀ code, AsksFor settings bag code → IsCurrencyCode code →
      ∀ error, estimate.outcome = .error error →
        ∃ before country after, countries = before ++ country :: after ∧
          calculated = before ++ [country] ∧
          (catalog.estimate settings bag date before).outcome.isOk = true ∧
          (catalog.estimate settings bag date (before ++ [country])).outcome = .error error ∧
          (∀ earlier ∈ before, (breakdown earlier).outcome.isOk = true) ∧
          ((breakdown country).outcome = .error error ∨
            (breakdown country).outcome.isOk = true ∧
              ∃ left right, error = .arithmetic (.amountOverflow left right))) ∧
    ((¬ ∃ code, AsksFor settings bag code ∧ IsCurrencyCode code) → estimate.events = []) := by
  intro rules breakdown estimate calculated
  refine ⟨fun _ => increase_breakdown, fun _ => counts_breakdown,
    hreachable.sound.nodup_applicable, fun _ => failureCounted_breakdown,
    fun _ => increase_estimate, calculatedCountries_of_isOk, ?_, ?_⟩
  · intro code hasks hcode error herror
    exact calculatedCountries_of_error
      (currencyOf_eq_ok_iff.mpr ⟨code, hasks, hcode, rfl⟩) herror
  · intro hnone
    cases hcurrency : currencyOf settings bag with
    | ok currency =>
      obtain ⟨code, hasks, hcode, -⟩ := currencyOf_eq_ok_iff.mp hcurrency
      exact absurd ⟨code, hasks, hcode⟩ hnone
    | error error => exact events_estimate_of_currencyOf_error hcurrency

/-- A breakdown that fails for a condition without a value, and an estimate that fails with it
before its second country. -/
theorem counters_match_outcomes_surcharge :
    let date : Date := ⟨2024, 2, 29, by decide⟩
    let breakdown := flatFeeWithSurcharge.breakdown {} .empty date
    let estimate := flatFeeWithSurcharge.estimate {} .empty date ["DE", "FR"]
    flatFeeWithSurcharge.Reachable ∧ AsksFor {} .empty "EUR" ∧ IsCurrencyCode "EUR" ∧
    (breakdown "DE").outcome = .error
      (.ruleFailed "surcharge" .condition "turnover - 1000" (.parameterMissing "turnover")) ∧
    estimate.outcome = .error
      (.ruleFailed "surcharge" .condition "turnover - 1000" (.parameterMissing "turnover")) ∧
    increase (calculationSeries "DE" false) (breakdown "DE").events = 1 ∧
    increase (evaluationSeries .condition false) (breakdown "DE").events = 1 ∧
    increase (calculationSeries "DE" false) estimate.events = 1 ∧
    increase (calculationSeries "FR" true) estimate.events = 0 := by
  intro date breakdown estimate
  have hreachable : flatFeeWithSurcharge.Reachable := ⟨_, rfl⟩
  have hasks : AsksFor {} .empty "EUR" := Or.inr ⟨rfl, rfl⟩
  have hcode : IsCurrencyCode "EUR" := by decide +kernel
  have hordered : flatFeeWithSurcharge.applicable ⟨"DE", none, date⟩ =
      flatFeeWithSurcharge.compiledRules.filter fun one =>
        RuleQuery.accepts ⟨"DE", none, date⟩ one.rule :=
    applicable_of_pairwise (by decide +kernel)
  have herror : (breakdown "DE").outcome = .error
      (.ruleFailed "surcharge" .condition "turnover - 1000" (.parameterMissing "turnover")) := by
    show (flatFeeWithSurcharge.breakdown {} .empty date "DE").outcome = _
    rw [Catalog.breakdown, hordered]
    decide +kernel
  have hestimate : estimate.outcome = .error _ :=
    (estimate_eq_error_iff (currencyOf_eq_ok_iff.mpr ⟨"EUR", hasks, hcode, rfl⟩)).mpr
      ⟨[], "DE", ["FR"], [], Decimal.zero, rfl, .nil, rfl, Or.inl herror⟩
  obtain ⟨hcalculation, -, -, hfailure, hcountries, -, hlast, -⟩ :=
    counters_match_outcomes hreachable {} .empty date "DE" ["DE", "FR"]
  have hfails := exists_error_iff_isOk.mp ⟨_, herror⟩
  have hcalculated : flatFeeWithSurcharge.calculatedCountries {} .empty date ["DE", "FR"] =
      ["DE"] := by
    obtain ⟨before, country, after, hsplit, hcalculated, -, -, hearlier, -⟩ :=
      hlast "EUR" hasks hcode _ hestimate
    -- Germany fails, so that it is not among the countries before the one that fails.
    rcases before with _ | ⟨first, before⟩
    · cases hsplit
      exact hcalculated
    · have hfirst : first = "DE" := (List.cons.inj hsplit).1.symm
      have hok : (breakdown first).outcome.isOk = true := hearlier first List.mem_cons_self
      rw [hfirst, hfails] at hok
      cases hok
  refine ⟨hreachable, hasks, hcode, herror, hestimate, ?_, ?_, ?_, ?_⟩
  · exact (hcalculation _ rfl).trans (by rw [hfails]; rfl)
  · exact (hfailure _ herror).failures .condition
  · refine (hcountries _ rfl).trans ?_
    rw [hcalculated, List.countP_singleton, hfails]
    rfl
  · refine (hcountries _ rfl).trans ?_
    rw [hcalculated, List.countP_singleton, hfails]
    rfl

end Catalog

end Tariff
