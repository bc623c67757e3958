/-
# Formulas and their parameters

A formula sees of its source the numbers that it names and nothing else, so that sources which agree
there cannot be told apart. What it names it also reads, in both branches of a choice: a formula
that has a value has found a number for each of its parameters. Conversely, a formula that finds all
these numbers can only fail in its arithmetic.

* `exists_resolve_iff` : which parameters have decimals;
* `step_congr`, `Formula.evaluate_congr` : sources that agree on the parameters of a formula;
* `hasNumber_of_step`, `Formula.hasNumber_of_evaluate` : what a formula with a value has read;
* `EvaluationFault.arithmetic_of_hasNumber` : how a formula fails that finds its numbers.
-/
import Tariff.Proofs.Formula.Validity

namespace Tariff

variable {source other : ParameterSource} {name : String}

/-! ## Numbers -/

/-- Whether a source has a value for a parameter, and one that counts as a decimal. -/
def ParameterSource.HasNumber (source : ParameterSource) (name : String) : Prop :=
  ∃ value decimal, source name = some value ∧ value.toDecimal? = some decimal

/-- The parameters that have decimals are those for which a source has numbers. -/
theorem exists_resolve_iff :
    (∃ decimal, resolve source name = .ok decimal) ↔ source.HasNumber name := by
  rw [resolve, ParameterSource.HasNumber]
  cases source name with
  | none => simp
  | some value => cases hdecimal : value.toDecimal? <;> simp [hdecimal]

/-! ## Sources that agree -/

/-- What a token does depends on the number that it names, if it names one. -/
theorem step_congr {token : Token}
    (h : ∀ name, token = .parameter name → resolve source name = resolve other name) (index : Nat)
    (stack : List Decimal) : step source index token stack = step other index token stack := by
  cases token with
  | number text => rfl
  | parameter name => rw [step, step, h name rfl]
  | operator op => rfl
  | function f => rfl

theorem runTokens_congr {tokens : List Token}
    (h : ∀ name, .parameter name ∈ tokens → resolve source name = resolve other name) (index : Nat)
    (stack : List Decimal) : runTokens source index tokens stack =
      runTokens other index tokens stack := by
  induction tokens generalizing index stack with
  | nil => rfl
  | cons token tokens ih =>
    have hfirst : step source index token stack = step other index token stack :=
      step_congr (fun name hname => h name (hname ▸ List.mem_cons_self)) index stack
    rw [runTokens, runTokens, hfirst]
    -- Both runs go on with the same stack, which can be any.
    congr 1
    funext next
    exact ih (fun name hname => h name (List.mem_cons_of_mem _ hname)) (index + 1) next

/-- Sources that agree on the numbers which a formula names give it the same value, or the same
error. -/
theorem Formula.evaluate_congr {formula : Formula}
    (h : ∀ name ∈ formula.parameters, resolve source name = resolve other name) :
    formula.evaluate source = formula.evaluate other := by
  have hrun : runTokens source 0 formula.tokens [] = runTokens other 0 formula.tokens [] :=
    runTokens_congr (fun name hname => h name (mem_parametersOf.mpr hname)) 0 []
  rw [Formula.evaluate, Formula.evaluate, evaluateTokens, evaluateTokens, hrun]

/-! ## What has been read -/

/-- A parameter that is put on the stack has a number. -/
theorem hasNumber_of_step {index : Nat} {stack next : List Decimal}
    (h : step source index (.parameter name) stack = .ok next) : source.HasNumber name := by
  obtain ⟨decimal, hdecimal, -⟩ := bind_eq_ok_iff.mp h
  exact exists_resolve_iff.mp ⟨decimal, hdecimal⟩

theorem hasNumber_of_runTokens {tokens : List Token} {index : Nat} {stack last : List Decimal}
    (h : runTokens source index tokens stack = .ok last) (hname : .parameter name ∈ tokens) :
    source.HasNumber name := by
  induction tokens generalizing index stack with
  | nil => cases hname
  | cons token tokens ih =>
    obtain ⟨next, hnext, hrest⟩ := bind_eq_ok_iff.mp h
    rcases List.mem_cons.mp hname with rfl | hlater
    · exact hasNumber_of_step hnext
    · exact ih hrest hlater

/-- A formula that has a value has found numbers for all its parameters, those in branches that are
not chosen included. -/
theorem Formula.hasNumber_of_evaluate {formula : Formula} {value : Decimal}
    (h : formula.evaluate source = .ok value) (hname : name ∈ formula.parameters) :
    source.HasNumber name :=
  hasNumber_of_runTokens (evaluateTokens_ok_iff.mp h) (mem_parametersOf.mp hname)

/-- Where all parameters have numbers, only the arithmetic can fail. -/
theorem EvaluationFault.arithmetic_of_hasNumber {names : List String} {error : RuleError}
    (h : EvaluationFault source names error) (hnumbers : ∀ name ∈ names, source.HasNumber name) :
    ∃ fault, error = .arithmetic fault := by
  cases h with
  | missing hname hnone =>
    obtain ⟨value, -, hvalue, -⟩ := hnumbers _ hname
    rw [hnone] at hvalue
    cases hvalue
  | notNumeric hname hvalue hdecimal =>
    obtain ⟨found, decimal, hfound, hnumber⟩ := hnumbers _ hname
    rw [hvalue] at hfound
    cases hfound
    rw [hdecimal] at hnumber
    cases hnumber
  | arithmetic fault => exact ⟨fault, rfl⟩

end Tariff
