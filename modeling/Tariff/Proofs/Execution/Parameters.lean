/-
# What a rule needs of its parameters

A compiled rule requires the parameters that its formulas name. If each of them has a number, in the
bag or else by a default, the rule can only fail in its arithmetic; and a rule whose expression has
a value has found numbers for all parameters of the expression. Nothing else in a bag matters, and
a default means the same as a bag that holds it.

* `source_eq_some_iff` : where the formulas of a rule find a parameter;
* `Faithful.hasNumber_of_provides` : which parameters have numbers;
* `required_parameters_suffice` : numbers for the required parameters suffice and are needed;
* `Alike.sameResults` : what the results of a rule depend on;
* `results_depend_on_required_parameters` : bags that cannot be told apart.
-/
import Tariff.Proofs.Execution
import Tariff.Proofs.Formula.Parameters

namespace Tariff

variable {compiled : CompiledRule} {bag : ParameterBag} {name : String}

/-! ## Where parameters are found -/

/-- A rule has what it needs for a parameter: the bag holds a value for it that counts as a decimal,
or the bag lacks it and the rule declares it with a default, and not as a text. -/
inductive Rule.Provides (rule : Rule) (bag : ParameterBag) (name : String) : Prop where
  | given {value : ParameterValue} {decimal : Decimal} (hvalue : bag.get? name = some value)
      (hdecimal : value.toDecimal? = some decimal) : Provides rule bag name
  | declared {declaration : ParameterDeclaration} {value : ParameterValue}
      (hlacks : bag.get? name = none) (hmem : declaration ∈ rule.parameters)
      (hname : declaration.name = name) (htype : declaration.type ≠ .text)
      (hdefault : declaration.default = some value) : Provides rule bag name

namespace CompiledRule

/-- A parameter is looked up in the bag, and among the defaults only if the bag lacks it. -/
theorem source_eq_some_iff {value : ParameterValue} :
    compiled.source bag name = some value ↔
      bag.get? name = some value ∨
        bag.get? name = none ∧ compiled.defaults.get? name = some value :=
  Option.or_eq_some_iff

/-- What the bag holds is never replaced. -/
theorem source_of_get? {value : ParameterValue} (h : bag.get? name = some value) :
    compiled.source bag name = some value :=
  source_eq_some_iff.mpr (Or.inl h)

/-- A parameter that is provided has a number. -/
theorem Faithful.hasNumber_of_provides (hfaithful : compiled.Faithful)
    (h : compiled.rule.Provides bag name) : (compiled.source bag).HasNumber name := by
  cases h with
  | given hvalue hdecimal => exact ⟨_, _, source_of_get? hvalue, hdecimal⟩
  | @declared declaration value hlacks hmem hname htype hdefault =>
    have hget : compiled.defaults.get? name = some value :=
      (hfaithful.defaults name value).mpr ⟨declaration, hmem, hname, hdefault⟩
    obtain ⟨decimal, hdecimal⟩ :=
      (hfaithful.wellFormed.defaults declaration hmem).resolve_left htype value hdefault
    exact ⟨value, decimal, source_eq_some_iff.mpr (Or.inr ⟨hlacks, hget⟩), hdecimal⟩

/-- What the bag holds hides the defaults, also if it counts as no decimal. -/
theorem not_hasNumber_of_get? {value : ParameterValue} (h : bag.get? name = some value)
    (hdecimal : value.toDecimal? = none) : ¬ (compiled.source bag).HasNumber name := by
  rintro ⟨found, decimal, hfound, hnumber⟩
  rw [source_of_get? h] at hfound
  cases hfound
  rw [hdecimal] at hnumber
  cases hnumber

/-- An expression with a value has found numbers for its parameters, -/
theorem hasNumber_of_evaluate {amount : Decimal} (h : (compiled.evaluate bag).outcome = .ok amount)
    (hname : name ∈ compiled.expression.parameters) : (compiled.source bag).HasNumber name :=
  Formula.hasNumber_of_evaluate (meterFormula_eq_ok_iff.mp h) hname

/-- and a condition that could be checked for its own. -/
theorem hasNumber_of_check {applies : Bool} {condition : Formula}
    (h : (compiled.check bag).outcome = .ok applies)
    (hcondition : compiled.condition = some condition)
    (hname : name ∈ condition.parameters) : (compiled.source bag).HasNumber name := by
  rw [outcome_check, map_eq_ok_iff] at h
  obtain ⟨number, hnumber, -⟩ := h
  rw [conditionValue_eq_ok_iff, hcondition] at hnumber
  cases hnumber with
  | some hvalue => exact Formula.hasNumber_of_evaluate hvalue hname

/-- With numbers for its required parameters a rule fails in its arithmetic only. -/
theorem Blames.arithmetic_of_hasNumber {error : RuleError} (h : compiled.Blames bag error)
    (hfaithful : compiled.Faithful)
    (hnumbers : ∀ name ∈ compiled.requiredParameters, (compiled.source bag).HasNumber name) :
    ∃ phase formula fault,
      error = .ruleFailed compiled.id phase formula (.arithmetic fault) := by
  cases h with
  | @condition formula cause hcondition htext hcause =>
    obtain ⟨fault, rfl⟩ := hcause.arithmetic_of_hasNumber fun name hname =>
      hnumbers name ((hfaithful.parameters name).mpr (Or.inr ⟨formula, hcondition, hname⟩))
    exact ⟨_, _, fault, rfl⟩
  | expression htext hcause =>
    obtain ⟨fault, rfl⟩ := hcause.arithmetic_of_hasNumber fun name hname =>
      hnumbers name ((hfaithful.parameters name).mpr (Or.inl hname))
    exact ⟨_, _, fault, rfl⟩

/-! ## The rule for examples -/

/-- What the rule for examples requires. -/
theorem exists_compile_shareRule :
    ∃ compiled, shareRule.compile 0 = .ok compiled ∧
      (∀ name ∈ compiled.requiredParameters,
        name = "turnover" ∨ name = "share" ∨ name = "months") ∧
      "share" ∈ compiled.expression.parameters := by
  obtain ⟨compiled, hcompile, htokens⟩ := exists_of_toOption_map
    (show (shareRule.compile 0).toOption.map (fun compiled =>
        (compiled.expression.tokens, compiled.condition.map Formula.tokens)) =
      some ([.parameter "turnover", .parameter "turnover", .parameter "share",
          .operator (.between .multiply), .number "0", .function .choose, .parameter "months",
          .operator (.between .divide)], some [.parameter "turnover"]) by decide +kernel)
  obtain ⟨hexpression, hcondition⟩ := Prod.mk.inj htokens
  refine ⟨compiled, hcompile, ?_, ?_⟩
  · intro name hname
    rcases ((faithful_of_compile hcompile).parameters name).mp hname with
      hname | ⟨formula, hformula, hname⟩
    · rw [Formula.parameters, mem_parametersOf, hexpression] at hname
      simpa using hname
    · rw [hformula, Option.map_some, Option.some.injEq] at hcondition
      rw [Formula.parameters, mem_parametersOf, hcondition] at hname
      simp_all
  · rw [Formula.parameters, mem_parametersOf, hexpression]
    simp

/-! ## Numbers for the required parameters -/

/-- **The required parameters suffice, and they are needed.** If all required parameters of a rule
are provided, its check, the value of its expression and its execution fail only in the arithmetic
of one of its formulas, and so never for a parameter that is missing or is no number. Conversely,
if the expression has a value, then each of its parameters, wherever it stands, has in the bag, or
else among the rule's defaults, a value that counts as a decimal. -/
theorem required_parameters_suffice {rule : Rule} {version : Nat}
    (hcompile : rule.compile version = .ok compiled) (bag : ParameterBag) :
    ((∀ name ∈ compiled.requiredParameters, rule.Provides bag name) →
      ∀ error, ((compiled.check bag).outcome = .error error ∨
          (compiled.evaluate bag).outcome = .error error ∨
          ∃ traced, (compiled.execute traced bag).outcome = .error error) →
        ∃ phase formula fault,
          error = .ruleFailed rule.id phase formula (.arithmetic fault)) ∧
    ∀ amount, (compiled.evaluate bag).outcome = .ok amount →
      ∀ name ∈ compiled.expression.parameters, ∃ value decimal,
        (bag.get? name = some value ∨
          bag.get? name = none ∧ compiled.defaults.get? name = some value) ∧
        value.toDecimal? = some decimal := by
  have hfaithful := faithful_of_compile hcompile
  obtain rfl := rule_of_compile hcompile
  refine ⟨?_, ?_⟩
  · intro hprovides error herror
    -- However a rule is run, its errors blame one of its formulas.
    have hblames : compiled.Blames bag error := by
      rcases herror with hcheck | hevaluate | ⟨traced, hexecute⟩
      · exact hfaithful.blames_of_check hcheck
      · exact hfaithful.blames_of_evaluate hevaluate
      · exact (execute_eq_error_iff.mp hexecute).blames hfaithful
    exact hblames.arithmetic_of_hasNumber hfaithful fun name hname =>
      hfaithful.hasNumber_of_provides (hprovides name hname)
  · intro amount hamount name hname
    obtain ⟨value, decimal, hvalue, hdecimal⟩ := hasNumber_of_evaluate hamount hname
    exact ⟨value, decimal, source_eq_some_iff.mp hvalue, hdecimal⟩

/-- A quotient by no months: all parameters are provided, the share by its default, so that only
the arithmetic can fail. With four months there is an amount, and hence a number for the share. -/
theorem required_parameters_suffice_share :
    let never : ParameterBag :=
      Table.ofList [("turnover", .text " +1000 "), ("months", .boolean false)]
    let monthly : ParameterBag := Table.ofList [("turnover", .integer 1000), ("months", .integer 4)]
    ∃ compiled, shareRule.compile 0 = .ok compiled ∧
      (∀ name ∈ compiled.requiredParameters, shareRule.Provides never name) ∧
      (∃ error phase formula fault, (compiled.evaluate never).outcome = .error error ∧
        error = .ruleFailed "share" phase formula (.arithmetic fault)) ∧
      ∃ amount, (compiled.evaluate monthly).outcome = .ok amount ∧
        ∃ value decimal, (monthly.get? "share" = some value ∨
          monthly.get? "share" = none ∧ compiled.defaults.get? "share" = some value) ∧
          value.toDecimal? = some decimal := by
  intro never monthly
  obtain ⟨compiled, hcompile, hrequired, hshare⟩ := exists_compile_shareRule
  have hthousand : (ParameterValue.text " +1000 ").toDecimal? =
      some (Decimal.whole false 1000 (by decide)) := by decide +kernel
  have hzero : (ParameterValue.boolean false).toDecimal? = some Decimal.zero := rfl
  have hprovides : ∀ name ∈ compiled.requiredParameters, shareRule.Provides never name := by
    intro name hname
    rcases hrequired name hname with rfl | rfl | rfl
    · exact .given rfl hthousand
    · exact .declared rfl List.mem_cons_self rfl (by decide) rfl
    · exact .given rfl hzero
  have houtcomes : (shareRule.compile 0).toOption.map (fun compiled =>
      ((compiled.evaluate never).outcome.isOk, (compiled.evaluate monthly).outcome.isOk)) =
      some (false, true) := by decide +kernel
  rw [hcompile] at houtcomes
  obtain ⟨hnever, hmonthly⟩ := Prod.mk.inj (Option.some.inj houtcomes)
  obtain ⟨error, herror⟩ := exists_error_iff_isOk.mpr hnever
  obtain ⟨amount, hamount⟩ := exists_ok_iff_isOk.mpr hmonthly
  obtain ⟨phase, formula, fault, hfault⟩ :=
    (required_parameters_suffice hcompile never).1 hprovides error (Or.inr (Or.inl herror))
  exact ⟨compiled, hcompile, hprovides, ⟨error, phase, formula, fault, herror, hfault⟩, amount,
    hamount, (required_parameters_suffice hcompile monthly).2 amount hamount "share" hshare⟩

/-! ## Bags that cannot be told apart -/

/-- Two rules with a bag each have the same results: their checks, the values of their expressions
and their executions agree, in values and errors, traces and events. -/
structure SameResults (one : CompiledRule) (first : ParameterBag) (other : CompiledRule)
    (second : ParameterBag) : Prop where
  check : one.check first = other.check second
  evaluate : one.evaluate first = other.evaluate second
  execute : ∀ traced, one.execute traced first = other.execute traced second

/-- Two compiled rules of the same id and with the same formulas. -/
structure Alike (one other : CompiledRule) : Prop where
  id : one.id = other.id
  expression : one.expression = other.expression
  condition : one.condition = other.condition

variable {twin : CompiledRule} {other : ParameterBag}

/-- The value of a formula depends on the numbers that the rule's source has for its parameters. -/
theorem Alike.meterFormula_congr (halike : compiled.Alike twin) {phase : Phase} {formula : Formula}
    (h : ∀ name ∈ formula.parameters,
      resolve (compiled.source bag) name = resolve (twin.source other) name) :
    compiled.meterFormula phase formula bag = twin.meterFormula phase formula other := by
  rw [meterFormula, meterFormula, evaluateFormula, evaluateFormula, Formula.evaluate_congr h,
    halike.id]

/-- The results of a rule depend on the numbers that its source has for its required parameters. -/
theorem Alike.sameResults (halike : compiled.Alike twin) (hfaithful : compiled.Faithful)
    (h : ∀ name ∈ compiled.requiredParameters,
      resolve (compiled.source bag) name = resolve (twin.source other) name) :
    SameResults compiled bag twin other := by
  have hevaluate : compiled.evaluate bag = twin.evaluate other := by
    rw [evaluate, evaluate, ← halike.expression]
    exact halike.meterFormula_congr fun name hname =>
      h name ((hfaithful.parameters name).mpr (Or.inl hname))
  have hvalue : compiled.conditionValue bag = twin.conditionValue other := by
    rw [conditionValue, conditionValue, ← halike.condition]
    cases hcondition : compiled.condition with
    | none => rfl
    | some condition =>
      have hmeter : compiled.meterFormula .condition condition bag =
          twin.meterFormula .condition condition other :=
        halike.meterFormula_congr fun name hname =>
          h name ((hfaithful.parameters name).mpr (Or.inr ⟨condition, hcondition, hname⟩))
      dsimp only
      rw [hmeter]
  have htrace : compiled.conditionTrace = twin.conditionTrace := by
    unfold conditionTrace
    rw [halike.condition]
  have htrace' : compiled.expressionTrace = twin.expressionTrace := by
    unfold expressionTrace
    rw [halike.expression]
  refine ⟨?_, hevaluate, fun traced => ?_⟩
  · rw [check, check, hvalue]
  · rw [execute, execute, hvalue, hevaluate, htrace, htrace', halike.id]

/-- A rule with other defaults. -/
def replaceDefaults (compiled : CompiledRule) (defaults : Table ParameterValue) : CompiledRule :=
  { compiled with defaults }

variable {defaults : Table ParameterValue}

theorem resolve_congr {source other : ParameterSource} (h : source name = other name) :
    resolve source name = resolve other name := by
  rw [resolve, resolve, h]

/-- The results of a rule depend on what its source holds for its required parameters. -/
theorem Faithful.sameResults_of_source (hfaithful : compiled.Faithful)
    (h : ∀ name ∈ compiled.requiredParameters,
      compiled.source bag name = (compiled.replaceDefaults defaults).source other name) :
    SameResults compiled bag (compiled.replaceDefaults defaults) other :=
  Alike.sameResults ⟨rfl, rfl, rfl⟩ hfaithful fun name hname => resolve_congr (h name hname)

theorem Faithful.sameResults (hfaithful : compiled.Faithful)
    (h : ∀ name ∈ compiled.requiredParameters,
      compiled.source bag name = compiled.source other name) :
    SameResults compiled bag compiled other := by
  show SameResults compiled bag (compiled.replaceDefaults compiled.defaults) other
  exact hfaithful.sameResults_of_source h

/-- Defaults that are put into a bag which lacks them are found as before. -/
theorem source_insertAll {entries : List (String × ParameterValue)}
    (h : ∀ entry ∈ entries, bag.get? entry.1 = none ∧
      compiled.defaults.get? entry.1 = some entry.2) (name : String) :
    compiled.source (bag.insertAll entries) name = compiled.source bag name := by
  -- What was added under a name is its default, which stood in for it before.
  rcases bag.get?_insertAll_cases entries name with hsame | ⟨value, hentry, hvalue⟩
  · rw [source, source, withDefaults, withDefaults, hsame]
  · obtain ⟨hlacks, hdefault⟩ := h (name, value) hentry
    rw [source_of_get? hvalue, source_eq_some_iff.mpr (Or.inr ⟨hlacks, hdefault⟩)]

/-- **Only the required parameters matter, and a default is as good as its value.** A rule has the
same results, trace and events included, with bags that agree on its required parameters, and with
a bag to which some of its defaults are added that the bag lacks. Under names that the bag holds it
does not matter what defaults there are: what the bag holds is what the formulas see, and if that
counts as no decimal, a formula with such a parameter has no value. -/
theorem results_depend_on_required_parameters {rule : Rule} {version : Nat}
    (hcompile : rule.compile version = .ok compiled) (bag : ParameterBag) :
    (∀ other : ParameterBag,
      (∀ name ∈ compiled.requiredParameters, bag.get? name = other.get? name) →
      SameResults compiled bag compiled other) ∧
    (∀ entries : List (String × ParameterValue),
      (∀ entry ∈ entries, bag.get? entry.1 = none ∧ entry ∈ rule.declaredDefaults) →
      SameResults compiled bag compiled (bag.insertAll entries)) ∧
    (∀ defaults : Table ParameterValue,
      (∀ name, bag.get? name = none → compiled.defaults.get? name = defaults.get? name) →
      SameResults compiled bag (compiled.replaceDefaults defaults) bag) ∧
    ∀ name value, bag.get? name = some value → value.toDecimal? = none →
      (name ∈ compiled.expression.parameters →
        ∃ error, (compiled.evaluate bag).outcome = .error error) ∧
      ∀ condition, compiled.condition = some condition → name ∈ condition.parameters →
        ∃ error, (compiled.check bag).outcome = .error error := by
  have hfaithful := faithful_of_compile hcompile
  obtain rfl := rule_of_compile hcompile
  refine ⟨?_, ?_, ?_, ?_⟩
  · intro other hagree
    refine hfaithful.sameResults fun name hname => ?_
    rw [source, source, withDefaults, withDefaults, hagree name hname]
  · intro entries hentries
    refine hfaithful.sameResults fun name hname => ?_
    refine (source_insertAll (fun entry hentry => ?_) name).symm
    obtain ⟨hlacks, hdeclared⟩ := hentries entry hentry
    exact ⟨hlacks, (hfaithful.defaults _ _).mpr (mem_declaredDefaults.mp hdeclared)⟩
  · intro defaults hdefaults
    refine hfaithful.sameResults_of_source fun name hname => ?_
    rw [source, source, withDefaults, withDefaults]
    cases hget : bag.get? name with
    | none => exact congrArg (Option.or none) (hdefaults name hget)
    | some value => rfl
  · intro name value hget hdecimal
    have hnone : ¬ (compiled.source bag).HasNumber name := not_hasNumber_of_get? hget hdecimal
    refine ⟨?_, ?_⟩
    · intro hname
      exact exists_error_of_forall_ne fun amount hamount =>
        hnone (hasNumber_of_evaluate hamount hname)
    · intro condition hcondition hname
      exact exists_error_of_forall_ne fun applies happlies =>
        hnone (hasNumber_of_check happlies hcondition hname)

/-- A currency is none of the rule's parameters, and the default of the share may be given as a
value. But a share that is given and is no number hides the default. -/
theorem results_depend_on_required_parameters_share :
    let bag : ParameterBag := Table.ofList [("turnover", .integer 1000), ("months", .integer 4)]
    let other : ParameterBag :=
      Table.ofList [("months", .integer 4), ("currency", .text "SEK"), ("turnover", .integer 1000)]
    let hidden : ParameterBag := bag.insert "share" .null
    ∃ compiled, shareRule.compile 0 = .ok compiled ∧
      (∀ name ∈ compiled.requiredParameters, bag.get? name = other.get? name) ∧
      SameResults compiled bag compiled other ∧
      SameResults compiled bag compiled (bag.insertAll [("share", .text "0.2")]) ∧
      SameResults compiled hidden (compiled.replaceDefaults .empty) hidden ∧
      ∃ error, (compiled.evaluate hidden).outcome = .error error := by
  intro bag other hidden
  obtain ⟨compiled, hcompile, hrequired, hshare⟩ := exists_compile_shareRule
  have hagree : ∀ name ∈ compiled.requiredParameters, bag.get? name = other.get? name := by
    intro name hname
    rcases hrequired name hname with rfl | rfl | rfl <;> rfl
  obtain ⟨hothers, hadded, -, -⟩ := results_depend_on_required_parameters hcompile bag
  obtain ⟨-, -, hreplaced, hhidden⟩ := results_depend_on_required_parameters hcompile hidden
  refine ⟨compiled, hcompile, hagree, hothers other hagree, hadded _ ?_, hreplaced .empty ?_,
    (hhidden "share" .null rfl rfl).1 hshare⟩
  · intro entry hentry
    obtain rfl := List.mem_singleton.mp hentry
    exact ⟨rfl, List.mem_cons_self⟩
  · -- The only default is that of the share, and the bag holds a share.
    intro name hlacks
    have hother : name ≠ "share" := by
      rintro rfl
      cases hlacks
    cases hdefault : compiled.defaults.get? name with
    | none => rfl
    | some value =>
      obtain ⟨declaration, hmem, rfl, -⟩ :=
        ((faithful_of_compile hcompile).defaults _ _).mp hdefault
      rw [rule_of_compile hcompile] at hmem
      obtain rfl := List.mem_singleton.mp hmem
      exact absurd rfl hother

end CompiledRule

end Tariff
