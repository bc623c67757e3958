/-
# Where the faults of formulas are

The position of a fault can be used to point into the text: it is the end of the text, if an operand
is still due there, or it is where a lexeme or an obstacle begins. While the reader goes over
lexemes, each open bracket is remembered with its place, or with that of the name before it, and
what has been read behind it has all its other brackets closed; so a bracket that is never closed is
reported where the innermost one stands.

* `IsInnermostOpen.unique` : there is one innermost open bracket at most;
* `Awaits`, `Follows` : what has been read in the two situations of the reader;
* `faultAt_of_read` : where the reader's faults are;
* `parse_of_endsBeforeOperand` : a text that ends where an operand is expected;
* `position_of_parse_error` : where the faults of texts are.
-/
import Tariff.Proofs.Formula.Expectation
import Tariff.Proofs.Formula.Parsing
import Tariff.Proofs.Formula.Splitting

namespace Tariff

/-! ## Brackets -/

/-- Lexemes whose brackets pair up. -/
inductive Paired : List Lexeme → Prop where
  | nil : Paired []
  | other {lexeme : Lexeme} {lexemes : List Lexeme} (hopening : lexeme ≠ .opening)
      (hclosing : lexeme ≠ .closing) (hothers : Paired lexemes) : Paired (lexeme :: lexemes)
  | bracket {inner lexemes : List Lexeme} (hinner : Paired inner) (hothers : Paired lexemes) :
      Paired (.opening :: inner ++ .closing :: lexemes)

/-- The place of a bracket behind other lexemes: that of the function's name, if a name stands
directly before it, and else its own. -/
def openingPlace (front : List PlacedLexeme) (bracket : Nat) : Nat :=
  match front.getLast? with
  | some ⟨position, .name _⟩ => position
  | _ => bracket

/-- The innermost bracket that is open at the end of lexemes has this place: all brackets behind it
pair up. -/
def IsInnermostOpen (placed : List PlacedLexeme) (place : Nat) : Prop :=
  ∃ front bracket inner, placed = front ++ ⟨bracket, .opening⟩ :: inner ∧
    Paired (inner.map PlacedLexeme.lexeme) ∧ place = openingPlace front bracket

/-- Two lists whose brackets pair up do so together. -/
theorem Paired.append {first second : List Lexeme} (hfirst : Paired first)
    (hsecond : Paired second) : Paired (first ++ second) := by
  induction hfirst with
  | nil => exact hsecond
  | other hopening hclosing _ ih => exact .other hopening hclosing ih
  | bracket hinner _ _ ih =>
    rw [List.append_assoc, List.cons_append]
    exact .bracket hinner ih

/-- A lexeme that is no bracket pairs up by itself. -/
theorem paired_single {lexeme : Lexeme} (hopening : lexeme ≠ .opening)
    (hclosing : lexeme ≠ .closing) : Paired [lexeme] :=
  .other hopening hclosing .nil

/-- Lexemes that pair up have as many closing brackets as opening ones, -/
theorem Paired.count_eq {lexemes : List Lexeme} (h : Paired lexemes) :
    lexemes.count .opening = lexemes.count .closing := by
  induction h with
  | nil => rfl
  | other hopening hclosing _ ih =>
    rw [List.count_cons_of_ne hopening, List.count_cons_of_ne hclosing, ih]
  | bracket _ _ ihinner ihothers =>
    simp [List.count_append, ihinner, ihothers]
    omega

/-- and no fewer in any part that reaches up to their end. -/
theorem Paired.count_le {lexemes front back : List Lexeme} (h : Paired lexemes)
    (heq : lexemes = front ++ back) : back.count .opening ≤ back.count .closing := by
  induction h generalizing front back with
  | nil =>
    obtain ⟨-, rfl⟩ := List.append_eq_nil_iff.mp heq.symm
    exact Nat.le_refl 0
  | other hopening hclosing hothers ih =>
    rcases List.cons_eq_append_iff.mp heq with ⟨-, rfl⟩ | ⟨front', -, hback⟩
    · exact (Paired.other hopening hclosing hothers).count_eq.le
    · exact ih hback
  | @bracket inner lexemes hinner hothers ihinner ihothers =>
    rcases List.cons_eq_append_iff.mp heq with ⟨-, rfl⟩ | ⟨front', -, hback⟩
    · exact (Paired.bracket hinner hothers).count_eq.le
    -- The part begins behind the closing bracket, with it, or inside of the pair.
    rcases List.append_eq_append_iff.mp hback with ⟨inside, -, hrest⟩ | ⟨inside, hinside, rfl⟩
    · rcases List.cons_eq_append_iff.mp hrest with ⟨-, rfl⟩ | ⟨front'', -, hlexemes⟩
      · simp [hothers.count_eq]
      · exact ihothers hlexemes
    · have hle := ihinner hinside
      simp [List.count_append, hothers.count_eq]
      omega

/-- A bracket that is never closed keeps lexemes from pairing up. -/
theorem Paired.not_paired_of_append {front inner : List Lexeme}
    (h : Paired (front ++ .opening :: inner)) : ¬ Paired inner := by
  intro hinner
  have hle := h.count_le rfl
  rw [List.count_cons_self, List.count_cons_of_ne (by decide), hinner.count_eq] at hle
  omega

/-- The place of a bracket is where one of the lexemes stands. -/
theorem exists_openingPlace (front : List PlacedLexeme) (bracket : Nat)
    (inner : List PlacedLexeme) :
    ∃ lexeme ∈ front ++ ⟨bracket, .opening⟩ :: inner,
      lexeme.position = openingPlace front bracket := by
  unfold openingPlace
  split
  · next position name hlast =>
    exact ⟨⟨position, .name name⟩, List.mem_append_left _ (List.mem_of_getLast? hlast), rfl⟩
  · exact ⟨⟨bracket, .opening⟩, by simp, rfl⟩

/-- A bracket with a name directly before it has the place of the name. -/
theorem openingPlace_name (front : List PlacedLexeme) (position : Nat) (name : String)
    (bracket : Nat) : openingPlace (front ++ [⟨position, .name name⟩]) bracket = position := by
  rw [openingPlace, List.getLast?_concat]

/-- The open brackets among placed lexemes, the innermost first. -/
inductive Opened : List Enclosure → List PlacedLexeme → Prop where
  | nil {inner : List PlacedLexeme} (hinner : Paired (inner.map PlacedLexeme.lexeme)) :
      Opened [] inner
  | cons {enclosure : Enclosure} {others : List Enclosure} {front inner : List PlacedLexeme}
      {bracket : Nat} (houter : Opened others front)
      (hplace : enclosure.position = openingPlace front bracket)
      (hinner : Paired (inner.map PlacedLexeme.lexeme)) :
      Opened (enclosure :: others) (front ++ ⟨bracket, .opening⟩ :: inner)

namespace Opened

variable {enclosures : List Enclosure} {read : List PlacedLexeme}

/-- What pairs up opens no bracket and closes none. -/
theorem append (h : Opened enclosures read) {more : List PlacedLexeme}
    (hmore : Paired (more.map PlacedLexeme.lexeme)) : Opened enclosures (read ++ more) := by
  cases h with
  | nil hinner =>
    refine .nil ?_
    rw [List.map_append]
    exact hinner.append hmore
  | cons houter hplace hinner =>
    rw [List.append_assoc, List.cons_append]
    refine .cons houter hplace ?_
    rw [List.map_append]
    exact hinner.append hmore

/-- A lexeme that is no bracket leaves the open brackets as they are. -/
theorem take (h : Opened enclosures read) (position : Nat) {lexeme : Lexeme}
    (hopening : lexeme ≠ .opening) (hclosing : lexeme ≠ .closing) :
    Opened enclosures (read ++ [⟨position, lexeme⟩]) :=
  h.append (paired_single hopening hclosing)

/-- An opening bracket becomes the innermost one that is open. -/
theorem opening (h : Opened enclosures read) {enclosure : Enclosure} {bracket : Nat}
    (hplace : enclosure.position = openingPlace read bracket) :
    Opened (enclosure :: enclosures) (read ++ [⟨bracket, .opening⟩]) :=
  .cons h hplace .nil

/-- A closing bracket closes the innermost bracket, which then pairs up with it. -/
theorem closing {enclosure : Enclosure} (h : Opened (enclosure :: enclosures) read)
    (position : Nat) : Opened enclosures (read ++ [⟨position, .closing⟩]) := by
  cases h with
  | @cons _ _ front inner bracket houter _ hinner =>
    rw [List.append_assoc]
    refine houter.append ?_
    have hpair : Paired (.opening :: inner.map PlacedLexeme.lexeme ++ [.closing]) :=
      .bracket hinner .nil
    simpa using hpair

/-- The first of the open brackets is the innermost one. -/
theorem isInnermostOpen {enclosure : Enclosure} (h : Opened (enclosure :: enclosures) read) :
    IsInnermostOpen read enclosure.position := by
  cases h with
  | cons _ hplace hinner => exact ⟨_, _, _, rfl, hinner, hplace⟩

/-- An argument that has been read leaves the bracket of its call where it is. -/
theorem replace {enclosure other : Enclosure} (h : Opened (enclosure :: enclosures) read)
    (hsame : other.position = enclosure.position) : Opened (other :: enclosures) read := by
  cases h with
  | cons houter hplace hinner => exact .cons houter (hsame.trans hplace) hinner

end Opened

/-- The place of the innermost open bracket is where one of the lexemes stands. -/
theorem IsInnermostOpen.exists_mem {placed : List PlacedLexeme} {place : Nat}
    (h : IsInnermostOpen placed place) : ∃ lexeme ∈ placed, lexeme.position = place := by
  obtain ⟨front, bracket, inner, rfl, -, rfl⟩ := h
  exact exists_openingPlace front bracket inner

/-- There is only one innermost bracket that is open. -/
theorem IsInnermostOpen.unique {placed : List PlacedLexeme} {place other : Nat}
    (h : IsInnermostOpen placed place) (hother : IsInnermostOpen placed other) : place = other := by
  obtain ⟨front, bracket, inner, rfl, hinner, rfl⟩ := h
  obtain ⟨front', bracket', inner', heq, hinner', rfl⟩ := hother
  rcases List.append_eq_append_iff.mp heq with ⟨between, rfl, hrest⟩ | ⟨between, rfl, hrest⟩
  · rcases List.cons_eq_append_iff.mp hrest with ⟨rfl, hsame⟩ | ⟨between', -, rfl⟩
    · obtain ⟨⟨⟩, -⟩ := List.cons.inj hsame
      rw [List.append_nil]
    · rw [List.map_append] at hinner
      exact absurd hinner' hinner.not_paired_of_append
  · rcases List.cons_eq_append_iff.mp hrest with ⟨rfl, hsame⟩ | ⟨between', -, rfl⟩
    · obtain ⟨⟨⟩, -⟩ := List.cons.inj hsame
      rw [List.append_nil]
    · rw [List.map_append] at hinner'
      exact absurd hinner hinner'.not_paired_of_append

/-! ## The two situations of the reader -/

/-- What has been read where an operand is due: the grammar expects one, the brackets are where they
are said to be, and no name came last. -/
structure Awaits (enclosures : List Enclosure) (level : Level) (read : List PlacedLexeme) :
    Prop where
  covered : ∃ opened inside, BracketsCover enclosures opened ∧ level.Covers inside ∧
    read.map PlacedLexeme.lexeme = opened ++ inside
  opened : Opened enclosures read
  unnamed : ∀ last ∈ read.getLast?, ∀ name, last.lexeme ≠ .name name

/-- What has been read after an operand. -/
structure Follows (enclosures : List Enclosure) (level : Level) (operand : Tree)
    (read : List PlacedLexeme) : Prop where
  covered : ∃ opened inside atom, BracketsCover enclosures opened ∧ level.Covers inside ∧
    Derives .atom atom operand ∧ read.map PlacedLexeme.lexeme = opened ++ inside ++ atom
  opened : Opened enclosures read

/-- At the start an operand is due, and nothing has been read. -/
theorem awaits_start : Awaits [] .empty [] :=
  ⟨⟨[], [], .nil, Level.covers_empty, rfl⟩, .nil .nil, by simp⟩

namespace Awaits

variable {enclosures : List Enclosure} {level : Level} {read : List PlacedLexeme}

/-- Where the reader awaits an operand, the grammar does. -/
theorem operandDue (h : Awaits enclosures level read) :
    OperandDue (read.map PlacedLexeme.lexeme) := by
  obtain ⟨opened, inside, hopened, hinside, heq⟩ := h.covered
  rw [heq]
  exact operandDue_of_covers hopened hinside

/-- A literal is an operand. -/
theorem number (h : Awaits enclosures level read) (position : Nat) (text : String) :
    Follows enclosures level (.number text) (read ++ [⟨position, .number text⟩]) := by
  obtain ⟨opened, inside, hopened, hinside, heq⟩ := h.covered
  exact ⟨⟨opened, inside, _, hopened, hinside, .number text, by simp [heq]⟩,
    h.opened.take position (by simp) (by simp)⟩

/-- A name is an operand. -/
theorem parameter (h : Awaits enclosures level read) (position : Nat) (name : String) :
    Follows enclosures level (.parameter name) (read ++ [⟨position, .name name⟩]) := by
  obtain ⟨opened, inside, hopened, hinside, heq⟩ := h.covered
  exact ⟨⟨opened, inside, _, hopened, hinside, .parameter name, by simp [heq]⟩,
    h.opened.take position (by simp) (by simp)⟩

/-- A minus sign leaves the reader awaiting an operand. -/
theorem minus (h : Awaits enclosures level read) (position : Nat) :
    Awaits enclosures level.negate (read ++ [⟨position, .operator .subtract⟩]) := by
  obtain ⟨opened, inside, hopened, hinside, heq⟩ := h.covered
  exact ⟨⟨opened, _, hopened, hinside.negate, by simp [heq]⟩,
    h.opened.take position (by simp) (by simp), by simp⟩

/-- So does a plus sign. -/
theorem plus (h : Awaits enclosures level read) (position : Nat) :
    Awaits enclosures level (read ++ [⟨position, .operator .add⟩]) := by
  obtain ⟨opened, inside, hopened, hinside, heq⟩ := h.covered
  exact ⟨⟨opened, _, hopened, hinside.plus, by simp [heq]⟩,
    h.opened.take position (by simp) (by simp), by simp⟩

/-- No name stands before the bracket of a group, so that its place is its own. -/
theorem group (h : Awaits enclosures level read) (position : Nat) :
    Awaits (⟨position, .group, level⟩ :: enclosures) .empty (read ++ [⟨position, .opening⟩]) := by
  obtain ⟨opened, inside, hopened, hinside, heq⟩ := h.covered
  have hplace : position = openingPlace read position := by
    unfold openingPlace
    split
    · next name hlast => exact absurd rfl (h.unnamed _ hlast name)
    · rfl
  exact ⟨⟨_, [], hopened.openGroup hinside position, Level.covers_empty, by simp [heq]⟩,
    h.opened.opening hplace, by simp⟩

/-- The bracket of a call is placed where the name stands. -/
theorem call (h : Awaits enclosures level read) (position bracket : Nat) {name : String}
    {f : Builtin} (hname : Builtin.ofName? name = some f) :
    Awaits (⟨position, .call f [], level⟩ :: enclosures) .empty
      (read ++ [⟨position, .name name⟩, ⟨bracket, .opening⟩]) := by
  obtain ⟨opened, inside, hopened, hinside, heq⟩ := h.covered
  have hopenedName : Opened enclosures (read ++ [⟨position, .name name⟩]) :=
    h.opened.take position (by simp) (by simp)
  have hbracket : Opened (⟨position, .call f [], level⟩ :: enclosures)
      (read ++ [⟨position, .name name⟩] ++ [⟨bracket, .opening⟩]) :=
    hopenedName.opening (openingPlace_name read position name bracket).symm
  rw [List.append_assoc] at hbracket
  exact ⟨⟨_, [], hopened.openCall hinside (Builtin.ofName?_eq_some_iff.mp hname) position,
    Level.covers_empty, by simp [heq]⟩, hbracket, by simp⟩

end Awaits

namespace Follows

variable {enclosures : List Enclosure} {level outer : Level} {operand : Tree}
variable {read : List PlacedLexeme}

/-- Behind an operator an operand is due. -/
theorem operator (h : Follows enclosures level operand read) (position : Nat)
    (op : InfixOperator) :
    Awaits enclosures (level.push operand op) (read ++ [⟨position, .operator op⟩]) := by
  obtain ⟨opened, inside, atom, hopened, hinside, hatom, heq⟩ := h.covered
  exact ⟨⟨opened, _, hopened, hinside.push hatom op, by simp [heq]⟩,
    h.opened.take position (by simp) (by simp), by simp⟩

/-- A closing bracket makes a group an operand of the level around it. -/
theorem closeGroup {start : Nat} (h : Follows (⟨start, .group, outer⟩ :: enclosures) level operand
    read) (position : Nat) :
    Follows enclosures outer (level.whole operand) (read ++ [⟨position, .closing⟩]) := by
  obtain ⟨opened, inside, atom, hopened, hinside, hatom, heq⟩ := h.covered
  obtain ⟨opened', inside', atom', heq', hopened', hinside', hatom'⟩ :=
    hopened.closeGroup (hinside.derives_whole hatom)
  refine ⟨⟨opened', inside', atom', hopened', hinside', hatom', ?_⟩, h.opened.closing position⟩
  rw [← heq']
  simp [heq]

/-- A closing bracket makes a call an operand of the level around it. -/
theorem closeCall {start : Nat} {f : Builtin} {arguments : List Tree} {call : Tree}
    (h : Follows (⟨start, .call f arguments, outer⟩ :: enclosures) level operand read)
    (hcall : Tree.call? f (level.whole operand :: arguments).reverse = some call)
    (position : Nat) : Follows enclosures outer call (read ++ [⟨position, .closing⟩]) := by
  obtain ⟨opened, inside, atom, hopened, hinside, hatom, heq⟩ := h.covered
  obtain ⟨opened', inside', atom', heq', hopened', hinside', hatom'⟩ :=
    hopened.closeCall (hinside.derives_whole hatom) hcall
  refine ⟨⟨opened', inside', atom', hopened', hinside', hatom', ?_⟩, h.opened.closing position⟩
  rw [← heq']
  simp [heq]

/-- Behind a comma the next argument is due. -/
theorem comma {start : Nat} {f : Builtin} {arguments : List Tree}
    (h : Follows (⟨start, .call f arguments, outer⟩ :: enclosures) level operand read)
    (position : Nat) :
    Awaits (⟨start, .call f (level.whole operand :: arguments), outer⟩ :: enclosures) .empty
      (read ++ [⟨position, .comma⟩]) := by
  obtain ⟨opened, inside, atom, hopened, hinside, hatom, heq⟩ := h.covered
  refine ⟨⟨_, [], hopened.nextArgument (hinside.derives_whole hatom), Level.covers_empty, ?_⟩,
    (h.opened.take position (by simp) (by simp)).replace rfl, by simp⟩
  simp [heq]

end Follows

/-! ## Faults of the reader -/

/-- Where a fault among lexemes is: at the end of the text, where an operand is due; at the
innermost open bracket, if that is not closed; and else at one of the lexemes. -/
inductive FaultAt (length : Nat) (placed : List PlacedLexeme) : SyntaxFault → Prop where
  | incomplete (hdue : OperandDue (placed.map PlacedLexeme.lexeme)) :
      FaultAt length placed ⟨length, .incomplete⟩
  | unmatchedOpening {place : Nat} (hopen : IsInnermostOpen placed place) :
      FaultAt length placed ⟨place, .unmatchedOpening⟩
  | lexeme {position : Nat} {cause : SyntaxCause}
      (hmem : ∃ lexeme ∈ placed, lexeme.position = position) (hincomplete : cause ≠ .incomplete)
      (hopening : cause ≠ .unmatchedOpening) : FaultAt length placed ⟨position, cause⟩

/-- A fault at the lexeme that comes next. -/
theorem faultAt_next {length : Nat} (read : List PlacedLexeme) (next : PlacedLexeme)
    (rest : List PlacedLexeme) {cause : SyntaxCause} (hincomplete : cause ≠ .incomplete)
    (hopening : cause ≠ .unmatchedOpening) :
    FaultAt length (read ++ next :: rest) ⟨next.position, cause⟩ :=
  .lexeme ⟨next, by simp, rfl⟩ hincomplete hopening

/-- Behind lexemes that await an operand, the faults of the reader are where faults can be among all
lexemes, those that have been read and those that are left. -/
def LocatesOperand (length : Nat) (enclosures : List Enclosure) (level : Level)
    (rest : List PlacedLexeme) : Prop :=
  ∀ fault read, Formula.readOperand length enclosures level rest = .error fault →
    Awaits enclosures level read → FaultAt length (read ++ rest) fault

/-- So are they behind lexemes that an operand ends. -/
def LocatesOn (length : Nat) (enclosures : List Enclosure) (level : Level) (operand : Tree)
    (rest : List PlacedLexeme) : Prop :=
  ∀ fault read, Formula.readOn length enclosures level operand rest = .error fault →
    Follows enclosures level operand read → FaultAt length (read ++ rest) fault

/-- One induction over the lexemes that are left carries both situations. Where the reader goes on,
the lexemes that it takes join those that have been read. -/
theorem faultAt_of_read (length : Nat) :
    (∀ enclosures level rest, LocatesOperand length enclosures level rest) ∧
      ∀ enclosures level operand rest, LocatesOn length enclosures level operand rest := by
  apply Formula.readOperand.mutual_induct (LocatesOperand length) (LocatesOn length)
  -- Where an operand is due: the text ends.
  case case1 =>
    intro enclosures level fault read h hread
    rw [Formula.readOperand] at h
    cases h
    rw [List.append_nil]
    exact .incomplete hread.operandDue
  -- A literal.
  case case2 =>
    intro enclosures level position text rest ih fault read h hread
    rw [Formula.readOperand] at h
    simpa using ih fault _ h (hread.number position text)
  -- A name with a bracket behind it, which is that of a function or not.
  case case3 =>
    intro enclosures level position name bracket rest f hname ih fault read h hread
    rw [Formula.readOperand] at h
    simp only [hname] at h
    simpa using ih fault _ h (hread.call position bracket hname)
  case case4 =>
    intro enclosures level position name bracket rest hname fault read h hread
    rw [Formula.readOperand] at h
    simp only [hname] at h
    cases h
    exact faultAt_next read ⟨position, .name name⟩ _ (by simp) (by simp)
  -- Any other name.
  case case5 =>
    intro enclosures level position name rest hopening ih fault read h hread
    rw [Formula.readOperand] at h
    · simpa using ih fault _ h (hread.parameter position name)
    · exact hopening
  -- The two signs, and operators that are none.
  case case6 =>
    intro enclosures level position rest ih fault read h hread
    rw [Formula.readOperand] at h
    simpa using ih fault _ h (hread.minus position)
  case case7 =>
    intro enclosures level position rest ih fault read h hread
    rw [Formula.readOperand] at h
    simpa using ih fault _ h (hread.plus position)
  case case8 =>
    intro enclosures level position op rest hsubtract hadd fault read h hread
    rw [Formula.readOperand] at h
    · cases h
      exact faultAt_next read ⟨position, .operator op⟩ rest (by simp) (by simp)
    · exact hsubtract
    · exact hadd
  -- Brackets and commas.
  case case9 =>
    intro enclosures level position rest ih fault read h hread
    rw [Formula.readOperand] at h
    simpa using ih fault _ h (hread.group position)
  case case10 =>
    intro enclosures level position rest fault read h hread
    rw [Formula.readOperand] at h
    cases h
    exact faultAt_next read ⟨position, .closing⟩ rest (by simp) (by simp)
  case case11 =>
    intro enclosures level position rest fault read h hread
    rw [Formula.readOperand] at h
    cases h
    exact faultAt_next read ⟨position, .comma⟩ rest (by simp) (by simp)
  -- After an operand: the text ends, with no bracket open or with one.
  case case12 =>
    intro level operand fault read h hread
    rw [Formula.readOn] at h
    cases h
  case case13 =>
    intro level operand innermost others fault read h hread
    rw [Formula.readOn] at h
    cases h
    rw [List.append_nil]
    exact .unmatchedOpening hread.opened.isInnermostOpen
  -- A second operand.
  case case14 =>
    intro enclosures level operand position text rest fault read h hread
    rw [Formula.readOn] at h
    cases h
    exact faultAt_next read ⟨position, .number text⟩ rest (by simp) (by simp)
  case case15 =>
    intro enclosures level operand position name rest fault read h hread
    rw [Formula.readOn] at h
    cases h
    exact faultAt_next read ⟨position, .name name⟩ rest (by simp) (by simp)
  -- An operator.
  case case16 =>
    intro enclosures level operand position op rest ih fault read h hread
    rw [Formula.readOn] at h
    simpa using ih fault _ h (hread.operator position op)
  case case17 =>
    intro enclosures level operand position rest fault read h hread
    rw [Formula.readOn] at h
    cases h
    exact faultAt_next read ⟨position, .opening⟩ rest (by simp) (by simp)
  -- A closing bracket that closes nothing, a group or a call.
  case case18 =>
    intro level operand position rest fault read h hread
    rw [Formula.readOn] at h
    cases h
    exact faultAt_next read ⟨position, .closing⟩ rest (by simp) (by simp)
  case case19 =>
    intro level operand position rest start outer others ih fault read h hread
    rw [Formula.readOn] at h
    simpa using ih fault _ h (hread.closeGroup position)
  case case20 =>
    intro level operand position rest start f arguments outer others call hcall ih
      fault read h hread
    rw [Formula.readOn] at h
    simp only [hcall] at h
    simpa using ih fault _ h (hread.closeCall hcall position)
  case case21 =>
    intro level operand position rest start f arguments outer others hcall fault read h hread
    rw [Formula.readOn] at h
    simp only [hcall] at h
    cases h
    -- The number of arguments is reported where the name of the function stands.
    obtain ⟨name, hname, hposition⟩ := hread.opened.isInnermostOpen.exists_mem
    exact .lexeme ⟨name, List.mem_append_left _ hname, hposition⟩ (by simp) (by simp)
  -- A comma, in a call and elsewhere.
  case case22 =>
    intro level operand position rest start f arguments outer others enclosure ih fault read h hread
    rw [Formula.readOn] at h
    simpa using ih fault _ h (hread.comma position)
  case case23 =>
    intro enclosures level operand position rest hcall fault read h hread
    rw [Formula.readOn] at h
    · cases h
      exact faultAt_next read ⟨position, .comma⟩ rest (by simp) (by simp)
    · exact hcall

/-- A fault of the reader is where the lexemes that it was given say. -/
theorem faultAt_of_readOperand {length : Nat} {placed : List PlacedLexeme} {fault : SyntaxFault}
    (h : Formula.readOperand length [] .empty placed = .error fault) :
    FaultAt length placed fault :=
  (faultAt_of_read length).1 [] .empty placed fault [] h awaits_start

/-! ## Faults of a text -/

/-- A text ends where an operand is still expected. -/
def EndsBeforeOperand (text : String) : Prop :=
  ∃ lexemes, Lexeme.ofText text = .ok lexemes ∧
    OperandDue (lexemes.map PlacedLexeme.lexeme)

section

variable {text : String} {fault : SyntaxFault}

/-- A blank text is rejected at its start. -/
theorem parse_of_blank (hblank : isBlankText text = true) :
    Formula.parse text = .error ⟨0, .blank⟩ := by
  rw [Formula.parse, if_pos hblank]

/-- A text that is not blank is rejected when it is split, or when its lexemes are read. -/
theorem parse_error_cases (hblank : isBlankText text = false)
    (h : Formula.parse text = .error fault) :
    Lexeme.ofText text = .error fault ∨
      ∃ lexemes, Lexeme.ofText text = .ok lexemes ∧ FaultAt text.utf8ByteSize lexemes fault := by
  rw [Formula.parse, hblank, if_neg Bool.false_ne_true, bind_eq_error_iff] at h
  rcases h with hscan | ⟨lexemes, hlexemes, h⟩
  · exact Or.inl hscan
  · rcases bind_eq_error_iff.mp h with hread | ⟨tree, -, h⟩
    · exact Or.inr ⟨lexemes, hlexemes, faultAt_of_readOperand hread⟩
    · cases h

/-- A text that ends where an operand is expected is rejected there. -/
theorem parse_of_endsBeforeOperand (hblank : isBlankText text = false)
    (h : EndsBeforeOperand text) :
    Formula.parse text = .error ⟨text.utf8ByteSize, .incomplete⟩ := by
  obtain ⟨lexemes, hlexemes, hdue⟩ := h
  obtain ⟨enclosures, level, hread⟩ := hdue.exists_readOperand text.utf8ByteSize [] rfl
  rw [List.append_nil, Formula.readOperand] at hread
  rw [Formula.parse, hblank, if_neg Bool.false_ne_true, hlexemes]
  exact bind_eq_error_iff.mpr (Or.inr ⟨lexemes, rfl, bind_eq_error_iff.mpr (Or.inl hread)⟩)

/-- A fault points to a character that is not blank, where a lexeme of the text begins, or an
obstacle in it: a character that belongs to no lexeme, or digits and points that make up no
literal. -/
def PointsToLexeme (text : String) (fault : SyntaxFault) : Prop :=
  ∃ before c rest, text = before ++ (c.toString ++ rest) ∧
    before.utf8ByteSize = fault.position ∧ isBlank c = false ∧
    ((∃ lexemes, Lexeme.ofText text = .ok lexemes ∧ ∃ lexeme ∈ lexemes,
        lexeme.position = fault.position ∧
          ∃ after, c.toString ++ rest = lexeme.lexeme.text ++ after) ∨
      Obstacle (c.toString ++ rest) fault.cause)

/-- A fault that is where a lexeme stands points to this lexeme. -/
theorem pointsToLexeme_of_mem {lexemes : List PlacedLexeme}
    (hlexemes : Lexeme.ofText text = .ok lexemes)
    (h : ∃ lexeme ∈ lexemes, lexeme.position = fault.position) : PointsToLexeme text fault := by
  obtain ⟨lexeme, hmem, hposition⟩ := h
  obtain ⟨spaced, tail, -, rfl, rfl, hmaximal⟩ := ofText_eq_ok_iff.mp hlexemes
  rw [String.append_empty] at hmaximal
  obtain ⟨before, after, heq, hsize, hends⟩ := exists_of_mem_placed hmaximal hmem
  obtain ⟨c, rest, hfirst, hblank⟩ := hends.exists_first
  have hafter : lexeme.lexeme.text ++ after = c.toString ++ (rest ++ after) := by
    rw [hfirst, String.append_assoc]
  refine ⟨before, c, rest ++ after, ?_, ?_, hblank,
    Or.inl ⟨_, hlexemes, lexeme, hmem, hposition, after, hafter.symm⟩⟩
  · rw [heq, String.append_assoc, hafter]
  · omega

/-- A text that cannot be split is rejected at its obstacle. -/
theorem pointsToLexeme_of_scan_error (h : Lexeme.ofText text = .error fault) :
    PointsToLexeme text fault := by
  obtain ⟨before, after, -, rfl, hposition, -, hobstacle⟩ := ofText_eq_error_iff.mp h
  obtain ⟨c, rest, rfl, hblank⟩ := hobstacle.exists_first
  exact ⟨before, c, rest, rfl, hposition, hblank, Or.inr hobstacle⟩

/-- The fault of a text that is not blank and does not end too early points into the text. -/
theorem pointsToLexeme_of_parse_error (hblank : isBlankText text = false)
    (hnone : ¬ EndsBeforeOperand text) (h : Formula.parse text = .error fault) :
    PointsToLexeme text fault := by
  rcases parse_error_cases hblank h with hscan | ⟨lexemes, hlexemes, hfault⟩
  · exact pointsToLexeme_of_scan_error hscan
  · cases hfault with
    | incomplete hdue => exact absurd ⟨lexemes, hlexemes, hdue⟩ hnone
    | unmatchedOpening hopen => exact pointsToLexeme_of_mem hlexemes hopen.exists_mem
    | lexeme hmem => exact pointsToLexeme_of_mem hlexemes hmem

/-- The size of a beginning of a text is a place between two of its characters. -/
theorem isValid_of_append {before after : String} (htext : text = before ++ after) {position : Nat}
    (hposition : before.utf8ByteSize = position) : String.Pos.Raw.IsValid text ⟨position⟩ := by
  rw [String.Pos.Raw.isValid_iff_exists_append]
  exact ⟨before, after, htext, by rw [← hposition]; rfl⟩

/-- The fault of a text is at a place between two of its characters, or at one of its ends. -/
theorem isValid_of_parse_error (h : Formula.parse text = .error fault) :
    String.Pos.Raw.IsValid text ⟨fault.position⟩ := by
  cases hblank : isBlankText text with
  | true =>
    rw [parse_of_blank hblank] at h
    cases h
    exact isValid_of_append String.empty_append.symm rfl
  | false =>
    by_cases hdue : EndsBeforeOperand text
    · rw [parse_of_endsBeforeOperand hblank hdue] at h
      cases h
      exact isValid_of_append String.append_empty.symm rfl
    · obtain ⟨before, c, rest, htext, hposition, -⟩ := pointsToLexeme_of_parse_error hblank hdue h
      exact isValid_of_append htext hposition

/-- A bracket that is not closed is told only of lexemes, and is the innermost open one. -/
theorem isInnermostOpen_of_parse_error (h : Formula.parse text = .error fault)
    (hcause : fault.cause = .unmatchedOpening) :
    ∃ lexemes, Lexeme.ofText text = .ok lexemes ∧ IsInnermostOpen lexemes fault.position := by
  cases hblank : isBlankText text with
  | true =>
    rw [parse_of_blank hblank] at h
    cases h
    cases hcause
  | false =>
    rcases parse_error_cases hblank h with hscan | ⟨lexemes, hlexemes, hfault⟩
    · obtain ⟨before, after, -, -, -, -, hobstacle⟩ := ofText_eq_error_iff.mp hscan
      rw [hcause] at hobstacle
      cases hobstacle
    · cases hfault with
      | incomplete => cases hcause
      | unmatchedOpening hopen => exact ⟨lexemes, hlexemes, hopen⟩
      | lexeme _ _ hopening => exact absurd hcause hopening

/-- **The positions of faults can be used.** The fault of a blank text is at its beginning, and that
of any other text that ends where an operand is still expected is at its end. All other faults
point to a character that is not blank, with which a lexeme begins, or an obstacle. So no fault lies
behind the end of the text or inside a character. A bracket that is not closed is reported at the
innermost bracket that is open at the end, and if that is the bracket of a call, at the name of the
function. -/
theorem position_of_parse_error (h : Formula.parse text = .error fault) :
    (isBlankText text = true → fault.position = 0) ∧
    (isBlankText text = false → EndsBeforeOperand text → fault.position = text.utf8ByteSize) ∧
    (isBlankText text = false → ¬ EndsBeforeOperand text → PointsToLexeme text fault) ∧
    fault.position ≤ text.utf8ByteSize ∧ String.Pos.Raw.IsValid text ⟨fault.position⟩ ∧
    (fault.cause = .unmatchedOpening →
      ∃ lexemes, Lexeme.ofText text = .ok lexemes ∧
        ∀ place, IsInnermostOpen lexemes place ↔ place = fault.position) := by
  have hvalid := isValid_of_parse_error h
  refine ⟨?_, ?_, ?_, hvalid.le_rawEndPos, hvalid, ?_⟩
  · intro hblank
    rw [parse_of_blank hblank] at h
    cases h
    rfl
  · intro hblank hdue
    rw [parse_of_endsBeforeOperand hblank hdue] at h
    cases h
    rfl
  · intro hblank hnone
    exact pointsToLexeme_of_parse_error hblank hnone h
  · intro hcause
    obtain ⟨lexemes, hlexemes, hopen⟩ := isInnermostOpen_of_parse_error h hcause
    refine ⟨lexemes, hlexemes, fun place => ⟨fun hplace => hplace.unique hopen, ?_⟩⟩
    rintro rfl
    exact hopen

/-- A call that is not closed inside a group, a text that ends behind an operator and white space of
three bytes, and one with a letter of two bytes that is not of ASCII. -/
theorem position_of_parse_error_open_call :
    (∃ fault, Formula.parse "(\u00a0max(1, 2" = .error fault ∧ fault.position = 3 ∧
      String.Pos.Raw.IsValid "(\u00a0max(1, 2" ⟨fault.position⟩ ∧
      ∃ lexemes, Lexeme.ofText "(\u00a0max(1, 2" = .ok lexemes ∧ IsInnermostOpen lexemes 3) ∧
    (∃ fault, Formula.parse "1 +\u3000" = .error fault ∧ EndsBeforeOperand "1 +\u3000" ∧
      fault.position = "1 +\u3000".utf8ByteSize) ∧
    ∃ fault, Formula.parse "fee \u00d7 2" = .error fault ∧ fault.position = 4 ∧
      ¬ EndsBeforeOperand "fee \u00d7 2" ∧ PointsToLexeme "fee \u00d7 2" fault := by
  refine ⟨?_, ?_, ?_⟩
  · have h : Formula.parse "(\u00a0max(1, 2" = .error ⟨3, .unmatchedOpening⟩ := by decide +kernel
    obtain ⟨-, -, -, -, hvalid, hopen⟩ := position_of_parse_error h
    obtain ⟨lexemes, hlexemes, hplace⟩ := hopen rfl
    exact ⟨_, h, rfl, hvalid, lexemes, hlexemes, (hplace 3).mpr rfl⟩
  · have h : Formula.parse "1 +\u3000" = .error ⟨6, .incomplete⟩ := by decide +kernel
    have hlexemes : Lexeme.ofText "1 +\u3000" = .ok [⟨0, .number "1"⟩, ⟨2, .operator .add⟩] :=
      toOption_eq_some_iff.mp (by decide +kernel)
    have hdue : EndsBeforeOperand "1 +\u3000" :=
      ⟨_, hlexemes, OperandDue.start.operator (.number "1") .add⟩
    exact ⟨_, h, hdue, (position_of_parse_error h).2.1 (by decide +kernel) hdue⟩
  · have h : Formula.parse "fee \u00d7 2" = .error ⟨4, .unknownCharacter '\u00d7'⟩ := by
      decide +kernel
    have hnone : ¬ EndsBeforeOperand "fee \u00d7 2" := by
      rintro ⟨lexemes, hlexemes, -⟩
      have hscan : (Lexeme.ofText "fee \u00d7 2").isOk = false := by decide +kernel
      rw [hlexemes] at hscan
      cases hscan
    exact ⟨_, h, rfl, hnone, (position_of_parse_error h).2.2.1 (by decide +kernel) hnone⟩

end

end Tariff
