/-
# Formulas and the grammar

A text is a formula exactly when it splits by maximal munch into lexemes that the grammar
derives, and then its postfix form is the post-order of that derivation.
-/
import Tariff.Proofs.Formula.Completeness
import Tariff.Proofs.Formula.Reading
import Tariff.Proofs.Formula.Spelling
import Tariff.Rule.Compiled

namespace Tariff

/-- The scanner finds nothing in a blank text. -/
theorem scan_of_blank {cs : List Char} (h : ∀ c ∈ cs, isBlank c = true) (position : Nat) :
    Lexeme.scan position cs = .ok [] := by
  induction cs generalizing position with
  | nil => rw [Lexeme.scan]
  | cons c cs ih =>
    rw [scan_blank (h c List.mem_cons_self)]
    exact ih (fun d hd => h d (List.mem_cons_of_mem c hd)) _

theorem eq_nil_of_spells_blank {cs : List Char} {lexemes : List Lexeme} (h : Spells cs lexemes)
    (hblank : ∀ c ∈ cs, isBlank c = true) : lexemes = [] := by
  obtain ⟨placed, hplaced, rfl⟩ := exists_scan_of_spells h 0
  rw [scan_of_blank hblank] at hplaced
  cases hplaced
  rfl

/-- No derivation is without lexemes. -/
theorem ParseTree.lexemes_ne_nil {category : Nonterminal} (parse : ParseTree category) :
    parse.lexemes ≠ [] := by
  induction parse with
  | _ => simp_all [ParseTree.lexemes]

/-- What a text is read as is derived from the lexemes that it spells. -/
theorem exists_derivation_of_parse {text : String} {formula : Formula}
    (h : Formula.parse text = .ok formula) :
    formula.source = text ∧ ∃ parse : ParseTree .sum,
      Spells text.toList parse.lexemes ∧ parse.tokens = formula.tokens := by
  unfold Formula.parse at h
  split at h
  · contradiction
  · simp only [bind_eq_ok_iff] at h
    obtain ⟨placed, hplaced, tree, htree, hformula⟩ := h
    cases hformula
    obtain ⟨parse, hlexemes, htokens⟩ := derives_of_readOperand htree
    refine ⟨rfl, parse, ?_, htokens⟩
    rw [hlexemes]
    exact spells_of_scan hplaced

/-- A text whose lexemes are derived is read, as a formula with the post-order of the
derivation. -/
theorem exists_parse_of_derivation {text : String} {parse : ParseTree .sum}
    (h : Spells text.toList parse.lexemes) :
    ∃ formula, Formula.parse text = .ok formula ∧ formula.tokens = parse.tokens := by
  have hblank : isBlankText text = false := by
    rw [Bool.eq_false_iff]
    intro hblank
    exact parse.lexemes_ne_nil (eq_nil_of_spells_blank h (List.all_eq_true.mp hblank))
  obtain ⟨placed, hplaced, hlexemes⟩ := exists_scan_of_spells h 0
  obtain ⟨tree, htree, htokens⟩ := exists_readOperand text.utf8ByteSize parse hlexemes
  refine ⟨⟨text, tree⟩, ?_, htokens⟩
  rw [Formula.parse, hblank, if_neg Bool.false_ne_true, Lexeme.ofText, hplaced]
  exact bind_eq_ok_iff.mpr ⟨placed, rfl, bind_eq_ok_iff.mpr ⟨tree, htree, rfl⟩⟩

/-- **Formulas are what the grammar derives.** A text is read as a formula exactly when it splits
by maximal munch into lexemes with a derivation, and the postfix form is then the post-order of
the derivation, whichever it is. Any other text has a fault of syntax, and a rule that holds it
fails for that fault. -/
theorem parse_iff_derivation (text : String) :
    (∀ tokens, (∃ formula, Formula.parse text = .ok formula ∧ formula.source = text ∧
        formula.tokens = tokens) ↔
      ∃ parse : ParseTree .sum, Spells text.toList parse.lexemes ∧ parse.tokens = tokens) ∧
    ((∃ fault, Formula.parse text = .error fault ∧ ∀ rule : Rule, rule.parseFormula text =
        .error (.ruleFailed rule.id .parse text (.malformed fault))) ↔
      ¬ ∃ parse : ParseTree .sum, Spells text.toList parse.lexemes) := by
  have hparse : ∀ tokens, (∃ formula, Formula.parse text = .ok formula ∧ formula.source = text ∧
        formula.tokens = tokens) ↔
      ∃ parse : ParseTree .sum, Spells text.toList parse.lexemes ∧ parse.tokens = tokens := by
    intro tokens
    constructor
    · rintro ⟨formula, hformula, -, rfl⟩
      exact (exists_derivation_of_parse hformula).2
    · rintro ⟨parse, hspells, rfl⟩
      obtain ⟨formula, hformula, htokens⟩ := exists_parse_of_derivation hspells
      exact ⟨formula, hformula, (exists_derivation_of_parse hformula).1, htokens⟩
  refine ⟨hparse, ?_⟩
  constructor
  · rintro ⟨fault, hfault, -⟩ ⟨parse, hspells⟩
    obtain ⟨formula, hformula, -⟩ := exists_parse_of_derivation hspells
    rw [hfault] at hformula
    contradiction
  · intro hnone
    cases h : Formula.parse text with
    | ok formula =>
      obtain ⟨parse, hspells, -⟩ := (exists_derivation_of_parse h).2
      exact absurd ⟨parse, hspells⟩ hnone
    | error fault =>
      refine ⟨fault, rfl, fun rule => ?_⟩
      rw [Rule.parseFormula, h]
      rfl

end Tariff
