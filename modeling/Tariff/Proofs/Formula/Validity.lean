/-
# Validity

A text that is read as a formula can be evaluated with any parameters. Its literals have values
and its tokens have their operands, so that only the parameters and the arithmetic can fail.

* `isLiteral_of_parse`, `isName_of_parse` : the literals and names of a formula are well formed;
* `evaluate_of_parse` : a formula fails for a parameter that it names, or in its arithmetic;
* `evaluationFault_of_parse` : the errors that a formula can fail with.
-/
import Tariff.Proofs.Formula.Evaluation
import Tariff.Proofs.Formula.Parsing
import Tariff.Proofs.Formula.Splitting

namespace Tariff

/-! ## Literals and names -/

/-- The lexemes that a text spells are well formed. -/
theorem endsBefore_of_spells {cs : List Char} {lexemes : List Lexeme} (h : Spells cs lexemes)
    {lexeme : Lexeme} (hmem : lexeme ∈ lexemes) : ∃ after, lexeme.EndsBefore after := by
  induction h with
  | nil => cases hmem
  | blank _ _ ih => exact ih hmem
  | @number text cs lexemes hliteral stop _ ih =>
    rcases List.mem_cons.mp hmem with rfl | htail
    · exact ⟨String.ofList cs, hliteral, by rwa [String.toList_ofList]⟩
    · exact ih htail
  | @name text cs lexemes hname stop _ ih =>
    rcases List.mem_cons.mp hmem with rfl | htail
    · exact ⟨String.ofList cs, hname, by rwa [String.toList_ofList]⟩
    · exact ih htail
  | operator _ _ ih | opening _ ih | closing _ ih | comma _ ih =>
    rcases List.mem_cons.mp hmem with rfl | htail
    · exact ⟨"", trivial⟩
    · exact ih htail

/-- Between commas stand the lexemes of all arguments. -/
theorem mem_intercalate_comma {lexeme : Lexeme} {argument : List Lexeme}
    {arguments : List (List Lexeme)} (hargument : argument ∈ arguments) (h : lexeme ∈ argument) :
    lexeme ∈ [.comma].intercalate arguments := by
  induction arguments with
  | nil => cases hargument
  | cons first others ih =>
    rcases others with _ | ⟨second, rest⟩
    · rw [List.mem_singleton.mp hargument] at h
      rwa [List.intercalate_singleton]
    · rw [List.intercalate_cons_cons]
      rcases List.mem_cons.mp hargument with rfl | hothers
      · exact List.mem_append_left _ (List.mem_append_left _ h)
      · exact List.mem_append_right _ (ih hothers)

/-- The lexeme that an operand is written with. -/
def Token.lexeme? : Token → Option Lexeme
  | .number text => some (.number text)
  | .parameter name => some (.name name)
  | _ => none

/-- The operands of a post-order are among the lexemes. -/
theorem ParseTree.operand_mem_lexemes {category : Nonterminal} (parse : ParseTree category)
    {token : Token} {lexeme : Lexeme} (hlexeme : token.lexeme? = some lexeme)
    (h : token ∈ parse.tokens) : lexeme ∈ parse.lexemes := by
  induction parse with
  | call name f named arguments ih =>
    simp only [ParseTree.tokens, List.mem_append, List.mem_flatten, List.mem_ofFn] at h
    rcases h with ⟨tokens, ⟨i, rfl⟩, htoken⟩ | hfunction
    · have hargument : (arguments i).lexemes ∈ List.ofFn fun i => (arguments i).lexemes :=
        List.mem_ofFn.mpr ⟨i, rfl⟩
      have hmem := mem_intercalate_comma hargument (ih i htoken)
      simp [ParseTree.lexemes, hmem]
    · rw [List.mem_singleton.mp hfunction] at hlexeme
      cases hlexeme
  | _ => grind [ParseTree.tokens, ParseTree.lexemes, Token.lexeme?]

/-- The operands of a formula are well-formed lexemes. -/
theorem endsBefore_of_parse {text : String} {formula : Formula}
    (h : Formula.parse text = .ok formula) {token : Token} {lexeme : Lexeme}
    (hlexeme : token.lexeme? = some lexeme) (htoken : token ∈ formula.tokens) :
    ∃ after, lexeme.EndsBefore after := by
  obtain ⟨-, parse, hspells, htokens⟩ := exists_derivation_of_parse h
  rw [← htokens] at htoken
  exact endsBefore_of_spells hspells (parse.operand_mem_lexemes hlexeme htoken)

theorem isLiteral_of_parse {text : String} {formula : Formula}
    (h : Formula.parse text = .ok formula) {literal : String}
    (hliteral : .number literal ∈ formula.tokens) : IsLiteral literal := by
  obtain ⟨after, hends, -⟩ := endsBefore_of_parse h rfl hliteral
  exact hends

theorem isName_of_parse {text : String} {formula : Formula}
    (h : Formula.parse text = .ok formula) {name : String}
    (hname : .parameter name ∈ formula.tokens) : isName name = true := by
  obtain ⟨after, hends, -⟩ := endsBefore_of_parse h rfl hname
  exact hends

/-! ## Evaluation -/

/-- **A formula can be evaluated.** Whatever the parameters are, a text that is read as a formula
has a value, or names a parameter that is missing or that counts as no decimal, or fails in its
arithmetic. It never fails for its syntax or its structure. -/
theorem evaluate_of_parse {text : String} {formula : Formula}
    (h : Formula.parse text = .ok formula) (source : ParameterSource) :
    (∃ value, formula.evaluate source = .ok value) ∨
    (∃ name ∈ formula.parameters, source name = none ∧
      formula.evaluate source = .error (.parameterMissing name)) ∨
    (∃ name ∈ formula.parameters, ∃ value, source name = some value ∧ value.toDecimal? = none ∧
      formula.evaluate source = .error (.notNumeric name value.kind)) ∨
    ∃ fault, formula.evaluate source = .error (.arithmetic fault) := by
  cases houtcome : formula.evaluate source with
  | ok value => exact Or.inl ⟨value, rfl⟩
  | error error =>
    right
    obtain ⟨index, hfails⟩ := evaluateTokens_postorder_error_iff.mp houtcome
    have hsupplied := ((exists_tree_iff formula.tokens).mp ⟨formula.tree, rfl⟩).1
    obtain ⟨token, htoken, operands, happly⟩ := hfails.exists_apply hsupplied
    rcases Token.apply_error_cases happly with ⟨literal, fault, rfl, hfault, -⟩ |
      ⟨name, rfl, hnone, rfl⟩ | ⟨name, value, rfl, hvalue, hdecimal, rfl⟩ | ⟨fault, rfl⟩
    · -- The literals of a formula have values, so that none of them fails.
      obtain ⟨value, hvalue⟩ := (isLiteral_of_parse h htoken).value
      rw [hfault] at hvalue
      contradiction
    · exact Or.inl ⟨name, mem_parametersOf.mpr htoken, hnone, rfl⟩
    · exact Or.inr (Or.inl ⟨name, mem_parametersOf.mpr htoken, value, hvalue, hdecimal, rfl⟩)
    · exact Or.inr (Or.inr ⟨fault, rfl⟩)

/-- A quotient by a parameter, without parameters. -/
theorem evaluate_of_parse_quotient :
    ∃ formula, Formula.parse "1 / x" = .ok formula ∧
      ((∃ value, formula.evaluate (fun _ => none) = .ok value) ∨
      (∃ name ∈ formula.parameters, (fun _ => none : ParameterSource) name = none ∧
        formula.evaluate (fun _ => none) = .error (.parameterMissing name)) ∨
      (∃ name ∈ formula.parameters, ∃ value, (fun _ => none : ParameterSource) name = some value ∧
        value.toDecimal? = none ∧
        formula.evaluate (fun _ => none) = .error (.notNumeric name value.kind)) ∨
      ∃ fault, formula.evaluate (fun _ => none) = .error (.arithmetic fault)) := by
  have hparse : Formula.parse "1 / x" =
      .ok ⟨"1 / x", .binary (.arithmetic .divide) (.number "1") (.parameter "x")⟩ :=
    toOption_eq_some_iff.mp (by decide +kernel)
  exact ⟨_, hparse, evaluate_of_parse hparse fun _ => none⟩

/-! ## Errors -/

/-- The errors of formulas over some names: a parameter that is missing, one that counts as no
decimal, and whatever can go wrong with the arithmetic. -/
inductive EvaluationFault (source : ParameterSource) (names : List String) : RuleError → Prop where
  | missing {name : String} (hname : name ∈ names) (hnone : source name = none) :
      EvaluationFault source names (.parameterMissing name)
  | notNumeric {name : String} {value : ParameterValue} (hname : name ∈ names)
      (hvalue : source name = some value) (hdecimal : value.toDecimal? = none) :
      EvaluationFault source names (.notNumeric name value.kind)
  | arithmetic (fault : ArithmeticFault) : EvaluationFault source names (.arithmetic fault)

/-- The text of a formula is the one that it was read from. -/
theorem source_of_parse {text : String} {formula : Formula}
    (h : Formula.parse text = .ok formula) : formula.source = text :=
  (exists_derivation_of_parse h).1

/-- A formula that was read from a text fails with no other errors. -/
theorem evaluationFault_of_parse {text : String} {formula : Formula} {source : ParameterSource}
    {error : RuleError} (h : Formula.parse text = .ok formula)
    (herror : formula.evaluate source = .error error) :
    EvaluationFault source formula.parameters error := by
  obtain ⟨index, hfails⟩ := evaluateTokens_postorder_error_iff.mp herror
  have hsupplied := ((exists_tree_iff formula.tokens).mp ⟨formula.tree, rfl⟩).1
  obtain ⟨token, htoken, operands, happly⟩ := hfails.exists_apply hsupplied
  rcases Token.apply_error_cases happly with ⟨literal, fault, rfl, hfault, -⟩ |
    ⟨name, rfl, hnone, rfl⟩ | ⟨name, value, rfl, hvalue, hdecimal, rfl⟩ | ⟨fault, rfl⟩
  · obtain ⟨value, hvalue⟩ := (isLiteral_of_parse h htoken).value
    rw [hfault] at hvalue
    cases hvalue
  · exact .missing (mem_parametersOf.mpr htoken) hnone
  · exact .notNumeric (mem_parametersOf.mpr htoken) hvalue hdecimal
  · exact .arithmetic fault

end Tariff
