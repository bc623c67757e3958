/-
# Where an operand is due

`OperandDue` says, in terms of the grammar alone, that lexemes end where an operand is still
expected: behind a sign, behind an operator that has its left side, or behind a bracket or comma
that opens a group or an argument. The reader expects an operand behind exactly these lexemes.

* `OperandDue.behind_operator` : an operator behind any derived lexemes expects an operand;
* `operandDue_of_covers` : where the reader expects an operand, one is due;
* `OperandDue.exists_readOperand` : where an operand is due, the reader comes to expect one.
-/
import Tariff.Proofs.Formula.Completeness
import Tariff.Proofs.Formula.Reading

namespace Tariff

/-- Lexemes that end where an operand is expected. Calls may have any number of arguments so far. -/
inductive OperandDue : List Lexeme → Prop where
  | start : OperandDue []
  | sign {before : List Lexeme} {op : InfixOperator} (hbefore : OperandDue before)
      (hsign : op.IsAdditive) : OperandDue (before ++ [.operator op])
  | operator {before : List Lexeme} (hbefore : OperandDue before) (operand : ParseTree .atom)
      (op : InfixOperator) : OperandDue (before ++ operand.lexemes ++ [.operator op])
  | group {before : List Lexeme} (hbefore : OperandDue before) : OperandDue (before ++ [.opening])
  | call {before : List Lexeme} {name : String} {f : Builtin} (hbefore : OperandDue before)
      (hname : name.toLower = f.name) (arguments : List (ParseTree .sum)) :
      OperandDue (before ++ .name name :: .opening ::
        arguments.flatMap fun argument => argument.lexemes ++ [.comma])

/-! ## What the reader waits for -/

/-- An operator behind lexemes of any category expects an operand, since these end in an atom. -/
theorem OperandDue.behind_operator {category : Nonterminal} (parse : ParseTree category)
    {before : List Lexeme} (hbefore : OperandDue before) (op : InfixOperator) :
    OperandDue (before ++ parse.lexemes ++ [.operator op]) := by
  induction parse generalizing before op with
  | ofProduct only ih => exact ih hbefore op
  | sum left op' additive right ihleft ihright =>
    simpa [ParseTree.lexemes] using ihright (ihleft hbefore op') op
  | ofSigned only ih => exact ih hbefore op
  | product left op' multiplicative right ihleft ihright =>
    simpa [ParseTree.lexemes] using ihright (ihleft hbefore op') op
  | plus operand ih => simpa [ParseTree.lexemes] using ih (hbefore.sign (.inl rfl)) op
  | minus operand ih => simpa [ParseTree.lexemes] using ih (hbefore.sign (.inr rfl)) op
  | ofPower only ih => exact ih hbefore op
  | ofAtom only ih => exact ih hbefore op
  | power base exponent ihbase ihexponent =>
    simpa [ParseTree.lexemes] using ihexponent (ihbase hbefore .power) op
  | number text => exact hbefore.operator (.number text) op
  | parameter name => exact hbefore.operator (.parameter name) op
  | call name f named arguments => exact hbefore.operator (.call name f named arguments) op
  | group inner => exact hbefore.operator (.group inner) op

section

variable {before lexemes : List Lexeme}

/-- Behind the signs and bases of a chain an operand is due. -/
theorem ChainCovers.operandDue {links : List Link} (h : ChainCovers links lexemes)
    (hbefore : OperandDue before) : OperandDue (before ++ lexemes) := by
  induction h with
  | nil => simpa using hbefore
  | plus _ ih => simpa using ih.sign (.inl rfl)
  | minus _ ih => simpa using ih.sign (.inr rfl)
  | base _ hbase ih =>
    obtain ⟨operand, rfl, -⟩ := hbase
    simpa using ih.operator operand .power

/-- Behind a left side with its operator an operand is due. -/
theorem SideCovers.operandDue {category : Nonterminal} {allowed : InfixOperator → Prop}
    {side : Option (Tree × InfixOperator)} (h : SideCovers category allowed side lexemes)
    (hbefore : OperandDue before) : OperandDue (before ++ lexemes) := by
  cases h with
  | none => simpa using hbefore
  | some hleft hop =>
    obtain ⟨parse, rfl, -⟩ := hleft
    simpa using hbefore.behind_operator parse _

/-- Behind what a level covers an operand is due, if one was due before it. -/
theorem Level.Covers.operandDue {level : Level} (h : level.Covers lexemes)
    (hbefore : OperandDue before) : OperandDue (before ++ lexemes) := by
  obtain ⟨hsum, hproduct, hchain⟩ := h
  simpa using hchain.operandDue (hproduct.operandDue (hsum.operandDue hbefore))

/-- Behind an open bracket an operand is due. -/
theorem BracketsCover.operandDue {enclosures : List Enclosure}
    (h : BracketsCover enclosures lexemes) : OperandDue lexemes := by
  induction h with
  | nil => exact .start
  | @cons enclosure others outer level bracket _ hlevel hbracket ih =>
    have hinside := hlevel.operandDue ih
    obtain ⟨position, kind, waiting⟩ := enclosure
    cases hbracket with
    | group => exact hinside.group
    | call hname _ => exact hinside.call hname _

/-- Open brackets and what waits inside the innermost one expect an operand. -/
theorem operandDue_of_covers {enclosures : List Enclosure} {level : Level}
    {opened inside : List Lexeme} (hopened : BracketsCover enclosures opened)
    (hinside : level.Covers inside) : OperandDue (opened ++ inside) :=
  hinside.operandDue hopened.operandDue

end

/-! ## The reader comes to expect an operand -/

/-- The reader takes arguments of a call with their commas. -/
theorem exists_readOperand_commas (length : Nat) (f : Builtin) (start : Nat) (outer : Level)
    (enclosures : List Enclosure) (arguments : List (ParseTree .sum)) (before : List Tree)
    {placed : List PlacedLexeme} (rest : List PlacedLexeme)
    (hplaced : placed.map (·.lexeme) =
      arguments.flatMap fun argument => argument.lexemes ++ [.comma]) :
    ∃ read, Formula.readOperand length (⟨start, .call f before, outer⟩ :: enclosures) .empty
        (placed ++ rest) =
      Formula.readOperand length (⟨start, .call f read, outer⟩ :: enclosures) .empty rest := by
  induction arguments generalizing before placed with
  | nil =>
    rw [List.map_eq_nil_iff.mp hplaced]
    exact ⟨before, rfl⟩
  | cons argument arguments ih =>
    rw [List.flatMap_cons, List.append_assoc] at hplaced
    obtain ⟨first, placed', rfl, hfirst, hplaced'⟩ := List.map_eq_append_iff.mp hplaced
    obtain ⟨⟨comma, _⟩, others, rfl, rfl, hothers⟩ := List.map_eq_cons_iff.mp hplaced'
    obtain ⟨tree, -, hreads⟩ := exists_reads length argument
    obtain ⟨level', operand, hread, -⟩ := hreads (⟨start, .call f before, outer⟩ :: enclosures)
      .empty first (⟨comma, .comma⟩ :: (others ++ rest)) hfirst (noOpening_cons (by simp) _)
    obtain ⟨read, hrest⟩ := ih (level'.whole operand :: before) hothers
    refine ⟨read, ?_⟩
    rw [List.append_assoc, List.cons_append, hread, Formula.readOn]
    exact hrest

/-- Where an operand is due, the reader has got through all lexemes and expects one. -/
theorem OperandDue.exists_readOperand {lexemes : List Lexeme} (h : OperandDue lexemes)
    (length : Nat) {placed : List PlacedLexeme} (rest : List PlacedLexeme)
    (hplaced : placed.map (·.lexeme) = lexemes) :
    ∃ enclosures level, Formula.readOperand length [] .empty (placed ++ rest) =
      Formula.readOperand length enclosures level rest := by
  induction h generalizing placed rest with
  | start =>
    rw [List.map_eq_nil_iff.mp hplaced]
    exact ⟨[], .empty, rfl⟩
  | sign _ hsign ih =>
    obtain ⟨front, last, rfl, hfront, hlast⟩ := List.map_eq_append_iff.mp hplaced
    obtain ⟨⟨position, _⟩, rfl, rfl⟩ := List.map_eq_singleton_iff.mp hlast
    obtain ⟨enclosures, level, hread⟩ := ih (_ :: rest) hfront
    rw [List.append_assoc, List.singleton_append, hread]
    rcases hsign with rfl | rfl
    · exact ⟨enclosures, level, by rw [Formula.readOperand]⟩
    · exact ⟨enclosures, level.negate, by rw [Formula.readOperand]⟩
  | operator _ operand op ih =>
    rw [List.append_assoc] at hplaced
    obtain ⟨front, placed', rfl, hfront, hplaced'⟩ := List.map_eq_append_iff.mp hplaced
    obtain ⟨atom, last, rfl, hatom, hlast⟩ := List.map_eq_append_iff.mp hplaced'
    obtain ⟨⟨position, _⟩, rfl, rfl⟩ := List.map_eq_singleton_iff.mp hlast
    obtain ⟨enclosures, level, hread⟩ := ih (atom ++ ⟨position, .operator op⟩ :: rest) hfront
    obtain ⟨tree, -, hreads⟩ := exists_reads length operand
    obtain ⟨level', operand', hread', -⟩ := hreads enclosures level atom
      (⟨position, .operator op⟩ :: rest) hatom (noOpening_cons (by simp) _)
    refine ⟨enclosures, level'.push operand' op, ?_⟩
    rw [List.append_assoc, List.append_assoc, List.singleton_append, hread, hread', Formula.readOn]
  | group _ ih =>
    obtain ⟨front, last, rfl, hfront, hlast⟩ := List.map_eq_append_iff.mp hplaced
    obtain ⟨⟨position, _⟩, rfl, rfl⟩ := List.map_eq_singleton_iff.mp hlast
    obtain ⟨enclosures, level, hread⟩ := ih (_ :: rest) hfront
    rw [List.append_assoc, List.singleton_append, hread]
    exact ⟨⟨position, .group, level⟩ :: enclosures, .empty, by rw [Formula.readOperand]⟩
  | @call _ name f _ hname arguments ih =>
    obtain ⟨front, placed', rfl, hfront, hplaced'⟩ := List.map_eq_append_iff.mp hplaced
    obtain ⟨⟨position, _⟩, placed₂, rfl, rfl, hplaced₂⟩ := List.map_eq_cons_iff.mp hplaced'
    obtain ⟨⟨bracket, _⟩, inside, rfl, rfl, hinside⟩ := List.map_eq_cons_iff.mp hplaced₂
    obtain ⟨enclosures, level, hread⟩ :=
      ih (⟨position, .name name⟩ :: ⟨bracket, .opening⟩ :: (inside ++ rest)) hfront
    obtain ⟨read, hrest⟩ :=
      exists_readOperand_commas length f position level enclosures arguments [] rest hinside
    refine ⟨⟨position, .call f read, level⟩ :: enclosures, .empty, ?_⟩
    rw [List.append_assoc, List.cons_append, List.cons_append, hread, Formula.readOperand]
    simp only [Builtin.ofName?_eq_some_iff.mpr hname]
    exact hrest

end Tariff
