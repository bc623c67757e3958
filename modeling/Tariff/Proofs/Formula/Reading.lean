/-
# What the reader reads is derived by the grammar

While the reader goes over lexemes, what waits for its right operand covers the lexemes that
have been read: each part of a level, each open bracket and each argument that has been read
covers a stretch of them. A step of the reader extends what is covered by the lexeme that it
takes, so that at the end the whole list is derived.

* `derives_of_readOperand` : a list of lexemes that is read as a tree is derived as that tree.
-/
import Tariff.Formula.Reader
import Tariff.Proofs.Formula.Grammar

namespace Tariff

/-! ## Lexemes that a level covers -/

/-- A chain covers the signs and bases that are in it, the innermost last. Plus signs between
them leave no link. -/
inductive ChainCovers : List Link → List Lexeme → Prop where
  | nil : ChainCovers [] []
  | plus {links : List Link} {lexemes : List Lexeme} (outer : ChainCovers links lexemes) :
      ChainCovers links (lexemes ++ [.operator .add])
  | minus {links : List Link} {lexemes : List Lexeme} (outer : ChainCovers links lexemes) :
      ChainCovers (.negated :: links) (lexemes ++ [.operator .subtract])
  | base {links : List Link} {lexemes base : List Lexeme} {tree : Tree}
      (outer : ChainCovers links lexemes) (hbase : Derives .atom base tree) :
      ChainCovers (.base tree :: links) (lexemes ++ base ++ [.operator .power])

/-- A waiting left side covers what it was read from and its operator. -/
inductive SideCovers (category : Nonterminal) (allowed : InfixOperator → Prop) :
    Option (Tree × InfixOperator) → List Lexeme → Prop where
  | none : SideCovers category allowed none []
  | some {tree : Tree} {op : InfixOperator} {lexemes : List Lexeme}
      (hleft : Derives category lexemes tree) (hop : allowed op) :
      SideCovers category allowed (some (tree, op)) (lexemes ++ [.operator op])

/-- A level covers the left side of a sum, that of a product, and a chain, in this order. -/
inductive Level.Covers (level : Level) : List Lexeme → Prop where
  | parts {first second third : List Lexeme}
      (hsum : SideCovers .sum InfixOperator.IsAdditive level.sum first)
      (hproduct : SideCovers .product InfixOperator.IsMultiplicative level.product second)
      (hchain : ChainCovers level.chain third) : level.Covers (first ++ second ++ third)

/-- An open bracket covers itself, and for a call also the name and the arguments that have been
read, each with the comma after it. -/
inductive Bracket.Covers : Bracket → List Lexeme → Prop where
  | group : Bracket.Covers .group [.opening]
  | call {f : Builtin} {name : String} {parses : List (ParseTree .sum)} {arguments : List Tree}
      (hname : name.toLower = f.name)
      (harguments : parses.map ParseTree.tokens = arguments.reverse.map Tree.postorder) :
      Bracket.Covers (.call f arguments)
        (.name name :: .opening :: parses.flatMap fun parse => parse.lexemes ++ [.comma])

/-- Open brackets cover what stands around them and up to the innermost one. -/
inductive BracketsCover : List Enclosure → List Lexeme → Prop where
  | nil : BracketsCover [] []
  | cons {enclosure : Enclosure} {others : List Enclosure} {outer level bracket : List Lexeme}
      (houter : BracketsCover others outer) (hlevel : enclosure.outer.Covers level)
      (hbracket : enclosure.bracket.Covers bracket) :
      BracketsCover (enclosure :: others) (outer ++ level ++ bracket)

/-! ## Closing a level -/

/-- A waiting left side and the product behind it are derived as a sum. -/
theorem SideCovers.derives_sum {side : Option (Tree × InfixOperator)} {first second : List Lexeme}
    {tree : Tree} (hside : SideCovers .sum InfixOperator.IsAdditive side first)
    (htree : Derives .product second tree) :
    Derives .sum (first ++ second) (Level.join side tree) := by
  cases hside with
  | none => exact htree.ofProduct
  | some hleft hop =>
    rw [List.append_assoc]
    exact hleft.sum hop htree

/-- A waiting left side and the signed operand behind it are derived as a product. -/
theorem SideCovers.derives_product {side : Option (Tree × InfixOperator)}
    {first second : List Lexeme} {tree : Tree}
    (hside : SideCovers .product InfixOperator.IsMultiplicative side first)
    (htree : Derives .signed second tree) :
    Derives .product (first ++ second) (Level.join side tree) := by
  cases hside with
  | none => exact htree.ofSigned
  | some hleft hop =>
    rw [List.append_assoc]
    exact hleft.product hop htree

/-- A chain takes the operand from the inside outwards, as the grammar does. -/
theorem ChainCovers.derives {links : List Link} {first second : List Lexeme} {tree : Tree}
    (hchain : ChainCovers links first) (htree : Derives .signed second tree) :
    Derives .signed (first ++ second) (Level.closeChain links tree) := by
  induction hchain generalizing second tree with
  | nil => exact htree
  | plus _ ih =>
    rw [List.append_assoc]
    exact ih htree.plus
  | minus _ ih =>
    rw [List.append_assoc]
    exact ih htree.minus
  | base _ hbase ih =>
    rw [List.append_assoc, List.append_assoc]
    exact ih (hbase.power htree)

/-! ## Steps of the reader -/

namespace Level

variable {level : Level} {lexemes operand : List Lexeme} {tree : Tree}

/-- A level in which nothing waits covers no lexemes. -/
theorem covers_empty : empty.Covers [] := by
  have h : empty.Covers ([] ++ [] ++ []) := .parts .none .none .nil
  exact h

/-- A plus sign where an operand is due changes nothing. -/
theorem Covers.plus (h : level.Covers lexemes) : level.Covers (lexemes ++ [.operator .add]) := by
  obtain ⟨hsum, hproduct, hchain⟩ := h
  rw [List.append_assoc]
  exact .parts hsum hproduct hchain.plus

/-- A minus sign where an operand is due joins the chain. -/
theorem Covers.negate (h : level.Covers lexemes) :
    level.negate.Covers (lexemes ++ [.operator .subtract]) := by
  obtain ⟨hsum, hproduct, hchain⟩ := h
  rw [List.append_assoc]
  exact .parts hsum hproduct hchain.minus

/-- All that a level holds, with the operand that ends it, is derived as a sum. -/
theorem Covers.derives_whole (h : level.Covers lexemes) (hoperand : Derives .atom operand tree) :
    Derives .sum (lexemes ++ operand) (level.whole tree) := by
  obtain ⟨hsum, hproduct, hchain⟩ := h
  rw [List.append_assoc, List.append_assoc]
  exact hsum.derives_sum (hproduct.derives_product (hchain.derives hoperand.ofAtom))

/-- An operand joins the chain with the power sign behind it. -/
theorem Covers.waitPower (h : level.Covers lexemes) (hoperand : Derives .atom operand tree) :
    (level.push tree .power).Covers (lexemes ++ operand ++ [.operator .power]) := by
  obtain @⟨first, second, third, hsum, hproduct, hchain⟩ := h
  have hcover : (level.push tree .power).Covers
      (first ++ second ++ (third ++ operand ++ [.operator .power])) :=
    .parts hsum hproduct (hchain.base hoperand)
  simpa only [List.append_assoc] using hcover

/-- An operator of products waits with the product that ends before it. -/
theorem Covers.waitProduct (h : level.Covers lexemes) (hoperand : Derives .atom operand tree)
    {op : InfixOperator} (hop : op.IsMultiplicative) :
    Covers ⟨level.sum, some (level.term tree, op), []⟩ (lexemes ++ operand ++ [.operator op]) := by
  obtain @⟨first, second, third, hsum, hproduct, hchain⟩ := h
  have hterm := hproduct.derives_product (hchain.derives hoperand.ofAtom)
  have hcover : Covers ⟨level.sum, some (level.term tree, op), []⟩
      (first ++ (second ++ (third ++ operand) ++ [.operator op]) ++ []) :=
    .parts hsum (.some hterm hop) .nil
  simpa only [List.append_assoc, List.append_nil] using hcover

/-- An operator of sums waits with all that the level holds. -/
theorem Covers.waitSum (h : level.Covers lexemes) (hoperand : Derives .atom operand tree)
    {op : InfixOperator} (hop : op.IsAdditive) :
    Covers ⟨some (level.whole tree, op), none, []⟩ (lexemes ++ operand ++ [.operator op]) := by
  have hcover : Covers ⟨some (level.whole tree, op), none, []⟩
      (lexemes ++ operand ++ [.operator op] ++ [] ++ []) :=
    .parts (.some (h.derives_whole hoperand) hop) .none .nil
  simpa only [List.append_nil] using hcover

/-- An operator closes all that binds at least as tightly, and then waits itself. -/
theorem Covers.push (h : level.Covers lexemes) (hoperand : Derives .atom operand tree)
    (op : InfixOperator) :
    (level.push tree op).Covers (lexemes ++ operand ++ [.operator op]) := by
  cases op with
  | power => exact h.waitPower hoperand
  | multiply => exact h.waitProduct hoperand (.inl rfl)
  | divide => exact h.waitProduct hoperand (.inr rfl)
  | add => exact h.waitSum hoperand (.inl rfl)
  | subtract => exact h.waitSum hoperand (.inr rfl)

end Level

namespace BracketsCover

variable {others : List Enclosure} {outer level : Level} {opened inside argument : List Lexeme}
variable {tree : Tree}

/-- An opening bracket sets the level around it aside. -/
theorem openGroup (hopened : BracketsCover others opened) (hinside : level.Covers inside)
    (position : Nat) :
    BracketsCover (⟨position, .group, level⟩ :: others) (opened ++ inside ++ [.opening]) :=
  .cons hopened hinside .group

/-- So does the opening bracket of a call, with the name before it. -/
theorem openCall (hopened : BracketsCover others opened) (hinside : level.Covers inside)
    {f : Builtin} {name : String} (hname : name.toLower = f.name) (position : Nat) :
    BracketsCover (⟨position, .call f [], level⟩ :: others)
      (opened ++ inside ++ [.name name, .opening]) :=
  .cons hopened hinside (@Bracket.Covers.call f name [] [] hname rfl)

/-- A comma ends an argument, which joins those that have been read. -/
theorem nextArgument {f : Builtin} {arguments : List Tree} {position : Nat}
    (hopened : BracketsCover (⟨position, .call f arguments, outer⟩ :: others) opened)
    (hargument : Derives .sum argument tree) :
    BracketsCover (⟨position, .call f (tree :: arguments), outer⟩ :: others)
      (opened ++ argument ++ [.comma]) := by
  obtain ⟨parse, rfl, htokens⟩ := hargument
  cases hopened with
  | cons houter hlevel hbracket =>
    obtain _ | @⟨_, name, parses, _, hname, harguments⟩ := hbracket
    have hbracket' : (Bracket.call f (tree :: arguments)).Covers
        (.name name :: .opening ::
          (parses ++ [parse]).flatMap fun parse => parse.lexemes ++ [.comma]) :=
      .call hname (by simp [harguments, htokens])
    have hcover : BracketsCover (⟨position, .call f (tree :: arguments), outer⟩ :: others) _ :=
      .cons houter hlevel hbracket'
    simpa using hcover

/-- A closing bracket makes a group an operand of the level around it. -/
theorem closeGroup {position : Nat}
    (hopened : BracketsCover (⟨position, .group, outer⟩ :: others) opened)
    (hargument : Derives .sum argument tree) :
    ∃ opened' inside atom, opened ++ argument ++ [.closing] = opened' ++ inside ++ atom ∧
      BracketsCover others opened' ∧ outer.Covers inside ∧ Derives .atom atom tree := by
  cases hopened with
  | cons houter hlevel hbracket =>
    cases hbracket
    exact ⟨_, _, _, by simp, houter, hlevel, hargument.group⟩

/-- A closing bracket makes a call an operand of the level around it, if the number of its
arguments is right. -/
theorem closeCall {f : Builtin} {arguments : List Tree} {call : Tree} {position : Nat}
    (hopened : BracketsCover (⟨position, .call f arguments, outer⟩ :: others) opened)
    (hargument : Derives .sum argument tree)
    (hcall : Tree.call? f (tree :: arguments).reverse = some call) :
    ∃ opened' inside atom, opened ++ argument ++ [.closing] = opened' ++ inside ++ atom ∧
      BracketsCover others opened' ∧ outer.Covers inside ∧ Derives .atom atom call := by
  obtain ⟨parse, rfl, htokens⟩ := hargument
  cases hopened with
  | cons houter hlevel hbracket =>
    obtain _ | @⟨_, name, parses, _, hname, harguments⟩ := hbracket
    have hall : (parses ++ [parse]).map ParseTree.tokens =
        (tree :: arguments).reverse.map Tree.postorder := by
      simp [harguments, htokens]
    have hatom := Derives.call hname hall hcall
    rw [List.map_append, List.map_singleton, intercalate_comma_append, List.flatMap_map] at hatom
    exact ⟨_, _, _, by simp, houter, hlevel, hatom⟩

end BracketsCover

/-! ## Runs of the reader -/

/-- Where an operand is due, what is covered goes on to be derived if the reader finishes. -/
def DerivesOperand (length : Nat) (enclosures : List Enclosure) (level : Level)
    (rest : List PlacedLexeme) : Prop :=
  ∀ tree opened inside, Formula.readOperand length enclosures level rest = .ok tree →
    BracketsCover enclosures opened → level.Covers inside →
    Derives .sum (opened ++ inside ++ rest.map (·.lexeme)) tree

/-- After an operand, what is covered goes on to be derived if the reader finishes. -/
def DerivesOn (length : Nat) (enclosures : List Enclosure) (level : Level) (operand : Tree)
    (rest : List PlacedLexeme) : Prop :=
  ∀ tree opened inside atom, Formula.readOn length enclosures level operand rest = .ok tree →
    BracketsCover enclosures opened → level.Covers inside → Derives .atom atom operand →
    Derives .sum (opened ++ inside ++ atom ++ rest.map (·.lexeme)) tree

/-- One induction over the lexemes that are left carries both situations. A case in which the
reader stops with a fault has nothing to show. -/
theorem derives_of_read (length : Nat) :
    (∀ enclosures level rest, DerivesOperand length enclosures level rest) ∧
      ∀ enclosures level operand rest, DerivesOn length enclosures level operand rest := by
  apply Formula.readOperand.mutual_induct (DerivesOperand length) (DerivesOn length)
  -- Where an operand is due: the text ends.
  case case1 =>
    intro enclosures level tree opened inside h
    rw [Formula.readOperand] at h
    contradiction
  -- A literal.
  case case2 =>
    intro enclosures level position text rest ih tree opened inside h hopened hinside
    rw [Formula.readOperand] at h
    have hderived := ih tree opened inside _ h hopened hinside (.number text)
    simpa using hderived
  -- A name with a bracket behind it, which is that of a function or not.
  case case3 =>
    intro enclosures level position name position' rest f hname ih tree opened inside h hopened
      hinside
    rw [Formula.readOperand] at h
    simp only [hname] at h
    have hopened' := hopened.openCall hinside (Builtin.ofName?_eq_some_iff.mp hname) position
    have hderived := ih tree _ _ h hopened' Level.covers_empty
    simpa using hderived
  case case4 =>
    intro enclosures level position name position' rest hname tree opened inside h
    rw [Formula.readOperand] at h
    simp only [hname] at h
    contradiction
  -- Any other name.
  case case5 =>
    intro enclosures level position name rest hopening ih tree opened inside h hopened hinside
    rw [Formula.readOperand] at h
    · have hderived := ih tree opened inside _ h hopened hinside (.parameter name)
      simpa using hderived
    · exact hopening
  -- The two signs, and operators that are none.
  case case6 =>
    intro enclosures level position rest ih tree opened inside h hopened hinside
    rw [Formula.readOperand] at h
    have hderived := ih tree opened _ h hopened hinside.negate
    simpa using hderived
  case case7 =>
    intro enclosures level position rest ih tree opened inside h hopened hinside
    rw [Formula.readOperand] at h
    have hderived := ih tree opened _ h hopened hinside.plus
    simpa using hderived
  case case8 =>
    intro enclosures level position op rest hsubtract hadd tree opened inside h
    rw [Formula.readOperand] at h
    · contradiction
    · exact hsubtract
    · exact hadd
  -- Brackets and commas.
  case case9 =>
    intro enclosures level position rest ih tree opened inside h hopened hinside
    rw [Formula.readOperand] at h
    have hderived := ih tree _ _ h (hopened.openGroup hinside position) Level.covers_empty
    simpa using hderived
  case case10 | case11 =>
    intro enclosures level position rest tree opened inside h
    rw [Formula.readOperand] at h
    contradiction
  -- After an operand: the text ends, with no bracket open or with one.
  case case12 =>
    intro level operand tree opened inside atom h hopened hinside hatom
    rw [Formula.readOn] at h
    cases h
    cases hopened
    simpa using hinside.derives_whole hatom
  case case13 =>
    intro level operand innermost others tree opened inside atom h
    rw [Formula.readOn] at h
    contradiction
  -- A second operand.
  case case14 | case15 =>
    intro enclosures level operand position text rest tree opened inside atom h
    rw [Formula.readOn] at h
    contradiction
  -- An operator.
  case case16 =>
    intro enclosures level operand position op rest ih tree opened inside atom h hopened hinside
      hatom
    rw [Formula.readOn] at h
    have hderived := ih tree opened _ h hopened (hinside.push hatom op)
    simpa using hderived
  case case17 =>
    intro enclosures level operand position rest tree opened inside atom h
    rw [Formula.readOn] at h
    contradiction
  -- A closing bracket that closes nothing, a group or a call.
  case case18 =>
    intro level operand position rest tree opened inside atom h
    rw [Formula.readOn] at h
    contradiction
  case case19 =>
    intro level operand position rest start outer others ih tree opened inside atom h hopened
      hinside hatom
    rw [Formula.readOn] at h
    obtain ⟨opened', inside', atom', heq, hopened', hinside', hatom'⟩ :=
      hopened.closeGroup (hinside.derives_whole hatom)
    have hderived := ih tree _ _ _ h hopened' hinside' hatom'
    rw [← heq] at hderived
    simpa using hderived
  case case20 =>
    intro level operand position rest start f arguments outer others call hcall ih tree opened
      inside atom h hopened hinside hatom
    rw [Formula.readOn] at h
    simp only [hcall] at h
    obtain ⟨opened', inside', atom', heq, hopened', hinside', hatom'⟩ :=
      hopened.closeCall (hinside.derives_whole hatom) hcall
    have hderived := ih tree _ _ _ h hopened' hinside' hatom'
    rw [← heq] at hderived
    simpa using hderived
  case case21 =>
    intro level operand position rest start f arguments outer others hcall tree opened inside atom h
    rw [Formula.readOn] at h
    simp only [hcall] at h
    contradiction
  -- A comma, in a call and elsewhere.
  case case22 =>
    intro level operand position rest start f arguments outer others enclosure ih tree opened inside
      atom h hopened hinside hatom
    rw [Formula.readOn] at h
    have hopened' := hopened.nextArgument (hinside.derives_whole hatom)
    have hderived := ih tree _ _ h hopened' Level.covers_empty
    simpa using hderived
  case case23 =>
    intro enclosures level operand position rest hcall tree opened inside atom h
    rw [Formula.readOn] at h
    · contradiction
    · exact hcall

/-- A list of lexemes that is read as a tree is derived as that tree. -/
theorem derives_of_readOperand {length : Nat} {placed : List PlacedLexeme} {tree : Tree}
    (h : Formula.readOperand length [] .empty placed = .ok tree) :
    Derives .sum (placed.map (·.lexeme)) tree :=
  (derives_of_read length).1 [] .empty placed tree [] [] h .nil Level.covers_empty

end Tariff
