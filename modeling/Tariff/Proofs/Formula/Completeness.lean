/-
# What the grammar derives is read

The yield of a derivation tree takes the reader from a place where an operand is due to a place
after an operand. What waits there may differ from what waited before, since operators have been
pushed in between; `Ends` says for each category of the grammar in what way it may differ. Each
production keeps this, so that in the end a whole derivation is read.

* `exists_readOperand` : a derived list of lexemes is read as its tree of operations.
-/
import Mathlib.Tactic.Choose
import Tariff.Formula.Reader
import Tariff.Proofs.Formula.Grammar

namespace Tariff

/-! ## The situation after a category -/

/-- How a level and an operand after lexemes of a category are related to the level before them.
A sum or product is only read where nothing that binds as tightly waits. -/
def Ends : Nonterminal → Level → Level → Tree → Tree → Prop
  | .atom, before, after, operand, tree => after = before ∧ operand = tree
  | .power, before, after, operand, tree | .signed, before, after, operand, tree =>
    after.sum = before.sum ∧ after.product = before.product ∧
      after.factor operand = before.factor tree
  | .product, before, after, operand, tree =>
    before.product = none → before.chain = [] → after.sum = before.sum ∧ after.term operand = tree
  | .sum, before, after, operand, tree => before = .empty → after.whole operand = tree

/-- Whether no opening bracket comes next, which would make a name that of a function. -/
def NoOpening (rest : List PlacedLexeme) : Prop := ∀ next ∈ rest.head?, next.lexeme ≠ .opening

/-- The reader takes the lexemes of a category and is after an operand then, wherever it was. -/
def Reads (length : Nat) (category : Nonterminal) (lexemes : List Lexeme) (tree : Tree) : Prop :=
  ∀ enclosures level placed rest, placed.map (·.lexeme) = lexemes → NoOpening rest →
    ∃ level' operand,
      Formula.readOperand length enclosures level (placed ++ rest) =
        Formula.readOn length enclosures level' operand rest ∧
      Ends category level level' operand tree

/-- Where the text ends no bracket is opened. -/
theorem noOpening_nil : NoOpening [] := by
  intro next hnext
  contradiction

/-- What starts with another lexeme does not open a bracket. -/
theorem noOpening_cons {position : Nat} {lexeme : Lexeme} (h : lexeme ≠ .opening)
    (rest : List PlacedLexeme) : NoOpening (⟨position, lexeme⟩ :: rest) := by
  intro next hnext
  obtain rfl := Option.mem_some.mp hnext
  exact h

namespace Reads

variable {length : Nat} {first second : List Lexeme} {left right tree : Tree}

/-- The reader goes over an operator: its left side ends a category, and its right side begins
where the operator has been pushed. -/
theorem between {category category' : Nonterminal} (hleft : Reads length category first left)
    (hright : Reads length category' second right) {op : InfixOperator}
    (enclosures : List Enclosure) (level : Level) {placed rest : List PlacedLexeme}
    (hplaced : placed.map (·.lexeme) = first ++ .operator op :: second) (hrest : NoOpening rest) :
    ∃ middle operand after operand',
      Formula.readOperand length enclosures level (placed ++ rest) =
        Formula.readOn length enclosures after operand' rest ∧
      Ends category level middle operand left ∧
      Ends category' (middle.push operand op) after operand' right := by
  obtain ⟨placed₁, placed', rfl, rfl, hplaced'⟩ := List.map_eq_append_iff.mp hplaced
  obtain ⟨⟨position, _⟩, placed₂, rfl, rfl, rfl⟩ := List.map_eq_cons_iff.mp hplaced'
  obtain ⟨middle, operand, hread, hends⟩ := hleft enclosures level placed₁
    (⟨position, .operator op⟩ :: (placed₂ ++ rest)) rfl (noOpening_cons (by simp) _)
  obtain ⟨after, operand', hread', hends'⟩ := hright enclosures (middle.push operand op) placed₂
    rest rfl hrest
  refine ⟨middle, operand, after, operand', ?_, hends, hends'⟩
  rw [List.append_assoc, List.cons_append, hread, Formula.readOn, hread']

/-! ## Sums and products -/

/-- What is read as a product is read as a sum, since what a sum ends with does not go on. -/
theorem ofProduct (h : Reads length .product first tree) : Reads length .sum first tree := by
  intro enclosures level placed rest hplaced hrest
  obtain ⟨level', operand, hread, hends⟩ := h enclosures level placed rest hplaced hrest
  refine ⟨level', operand, hread, ?_⟩
  rintro rfl
  obtain ⟨hsum, hterm⟩ := hends rfl rfl
  rw [Level.whole, hsum, hterm]
  rfl

/-- A sum is read on past an additive operator: the left side waits for the product behind it. -/
theorem sum {op : InfixOperator} (hop : op.IsAdditive) (hleft : Reads length .sum first left)
    (hright : Reads length .product second right) :
    Reads length .sum (first ++ .operator op :: second) (.binary (.arithmetic op) left right) := by
  intro enclosures level placed rest hplaced hrest
  obtain ⟨middle, operand, after, operand', hread, hends, hends'⟩ :=
    hleft.between hright enclosures level hplaced hrest
  refine ⟨after, operand', hread, ?_⟩
  rintro rfl
  have hpush : middle.push operand op = ⟨some (left, op), none, []⟩ := by
    rw [← hends rfl]
    rcases hop with rfl | rfl <;> rfl
  rw [hpush] at hends'
  obtain ⟨hsum, hterm⟩ := hends' rfl rfl
  rw [Level.whole, hsum, hterm]
  rfl

/-- What is read as a signed operand is read as a product. -/
theorem ofSigned (h : Reads length .signed first tree) : Reads length .product first tree := by
  intro enclosures level placed rest hplaced hrest
  obtain ⟨level', operand, hread, hsum, hproduct, hfactor⟩ :=
    h enclosures level placed rest hplaced hrest
  refine ⟨level', operand, hread, ?_⟩
  intro hnone hnil
  refine ⟨hsum, ?_⟩
  rw [Level.term, hproduct, hfactor, hnone, Level.factor, hnil]
  rfl

/-- A product is read on past a multiplicative operator: the left side waits for the signed operand
behind it. -/
theorem product {op : InfixOperator} (hop : op.IsMultiplicative)
    (hleft : Reads length .product first left) (hright : Reads length .signed second right) :
    Reads length .product (first ++ .operator op :: second)
      (.binary (.arithmetic op) left right) := by
  intro enclosures level placed rest hplaced hrest
  obtain ⟨middle, operand, after, operand', hread, hends, hends'⟩ :=
    hleft.between hright enclosures level hplaced hrest
  refine ⟨after, operand', hread, ?_⟩
  intro hnone hnil
  obtain ⟨hsum, hterm⟩ := hends hnone hnil
  have hpush : middle.push operand op = ⟨level.sum, some (left, op), []⟩ := by
    rw [← hterm, ← hsum]
    rcases hop with rfl | rfl <;> rfl
  rw [hpush] at hends'
  obtain ⟨hsum', hproduct, hfactor⟩ := hends'
  refine ⟨hsum', ?_⟩
  rw [Level.term, hproduct, hfactor]
  rfl

/-! ## Signs and powers -/

/-- A plus sign before a signed operand is passed over. -/
theorem plus (h : Reads length .signed first tree) :
    Reads length .signed (.operator .add :: first) tree := by
  intro enclosures level placed rest hplaced hrest
  obtain ⟨⟨position, _⟩, placed', rfl, rfl, hplaced'⟩ := List.map_eq_cons_iff.mp hplaced
  obtain ⟨level', operand, hread, hends⟩ := h enclosures level placed' rest hplaced' hrest
  refine ⟨level', operand, ?_, hends⟩
  rw [List.cons_append, Formula.readOperand, hread]

/-- A minus sign before a signed operand joins the chain and is closed with it. -/
theorem minus (h : Reads length .signed first tree) :
    Reads length .signed (.operator .subtract :: first) (.unary .negate tree) := by
  intro enclosures level placed rest hplaced hrest
  obtain ⟨⟨position, _⟩, placed', rfl, rfl, hplaced'⟩ := List.map_eq_cons_iff.mp hplaced
  obtain ⟨level', operand, hread, hends⟩ := h enclosures level.negate placed' rest hplaced' hrest
  refine ⟨level', operand, ?_, hends⟩
  rw [List.cons_append, Formula.readOperand, hread]

/-- A power is read as a signed operand is. -/
theorem ofPower (h : Reads length .power first tree) : Reads length .signed first tree := h

/-- What is read as an atom is read as a power. -/
theorem ofAtom (h : Reads length .atom first tree) : Reads length .power first tree := by
  intro enclosures level placed rest hplaced hrest
  obtain ⟨level', operand, hread, rfl, rfl⟩ := h enclosures level placed rest hplaced hrest
  exact ⟨level', operand, hread, rfl, rfl, rfl⟩

/-- The base of a power joins the chain and is closed with the exponent. -/
theorem power (hbase : Reads length .atom first left)
    (hexponent : Reads length .signed second right) :
    Reads length .power (first ++ .operator .power :: second)
      (.binary (.arithmetic .power) left right) := by
  intro enclosures level placed rest hplaced hrest
  obtain ⟨middle, operand, after, operand', hread, ⟨rfl, rfl⟩, hends'⟩ :=
    hbase.between hexponent enclosures level hplaced hrest
  exact ⟨after, operand', hread, hends'⟩

/-! ## Atoms -/

/-- A literal is an operand at once. -/
theorem number (text : String) : Reads length .atom [.number text] (.number text) := by
  intro enclosures level placed rest hplaced hrest
  obtain ⟨⟨position, _⟩, placed', rfl, rfl, hnil⟩ := List.map_eq_cons_iff.mp hplaced
  rw [List.map_eq_nil_iff.mp hnil]
  refine ⟨level, .number text, ?_, rfl, rfl⟩
  rw [List.singleton_append, Formula.readOperand]

/-- A name that no bracket follows is an operand at once. -/
theorem parameter (name : String) : Reads length .atom [.name name] (.parameter name) := by
  intro enclosures level placed rest hplaced hrest
  obtain ⟨⟨position, _⟩, placed', rfl, rfl, hnil⟩ := List.map_eq_cons_iff.mp hplaced
  rw [List.map_eq_nil_iff.mp hnil]
  refine ⟨level, .parameter name, ?_, rfl, rfl⟩
  rw [List.singleton_append, Formula.readOperand]
  rintro position' rest' rfl
  exact hrest _ rfl rfl

/-- Brackets around what is read as a sum set the waiting level aside and take it up again. -/
theorem group (h : Reads length .sum first tree) :
    Reads length .atom (.opening :: first ++ [.closing]) tree := by
  intro enclosures level placed rest hplaced hrest
  obtain ⟨⟨position, _⟩, placed', rfl, rfl, hplaced'⟩ := List.map_eq_cons_iff.mp hplaced
  obtain ⟨inner, last, rfl, hinner, hlast⟩ := List.map_eq_append_iff.mp hplaced'
  obtain ⟨⟨position', _⟩, placed', rfl, rfl, hnil⟩ := List.map_eq_cons_iff.mp hlast
  rw [List.map_eq_nil_iff.mp hnil]
  obtain ⟨level', operand, hread, hends⟩ := h (⟨position, .group, level⟩ :: enclosures) .empty
    inner (⟨position', .closing⟩ :: rest) hinner (noOpening_cons (by simp) _)
  refine ⟨level, tree, ?_, rfl, rfl⟩
  rw [List.cons_append, Formula.readOperand, List.append_assoc, List.singleton_append, hread,
    Formula.readOn, hends rfl]

end Reads

/-! ## Calls -/

/-- The reader takes the arguments of a call and its closing bracket, after those arguments that
have been read before, if their number is right in the end. -/
theorem readOperand_arguments {length : Nat} {f : Builtin} {start : Nat} {outer : Level}
    {enclosures : List Enclosure} {call : Tree} {rest : List PlacedLexeme} {position : Nat} :
    ∀ (parts : List (List Lexeme × Tree)) (before : List Tree) (placed : List PlacedLexeme),
      parts ≠ [] → (∀ part ∈ parts, Reads length .sum part.1 part.2) →
      placed.map (·.lexeme) = [.comma].intercalate (parts.map Prod.fst) →
      Tree.call? f (before.reverse ++ parts.map Prod.snd) = some call →
      Formula.readOperand length (⟨start, .call f before, outer⟩ :: enclosures) .empty
          (placed ++ ⟨position, .closing⟩ :: rest) =
        Formula.readOn length enclosures outer call rest := by
  intro parts
  induction parts with
  | nil => intro before placed hne; contradiction
  | cons part parts ih =>
    intro before placed _ hreads hplaced hcall
    have hpart := hreads part List.mem_cons_self
    cases parts with
    | nil =>
      -- The last argument ends at the closing bracket, where the number is checked.
      obtain ⟨level', operand, hread, hends⟩ := hpart (⟨start, .call f before, outer⟩ :: enclosures)
        .empty placed (⟨position, .closing⟩ :: rest) (by simpa using hplaced)
        (noOpening_cons (by simp) _)
      rw [hread, Formula.readOn, hends rfl]
      simp only [List.map_cons, List.map_nil] at hcall
      simp only [List.reverse_cons, hcall]
    | cons next parts =>
      -- Any other one ends at its comma, and then is one of those read before.
      rw [List.map_cons, List.map_cons, List.intercalate_cons_cons, List.append_assoc] at hplaced
      obtain ⟨first, placed', rfl, hfirst, hplaced'⟩ := List.map_eq_append_iff.mp hplaced
      obtain ⟨⟨comma, _⟩, others, rfl, rfl, hothers⟩ := List.map_eq_cons_iff.mp hplaced'
      obtain ⟨level', operand, hread, hends⟩ := hpart (⟨start, .call f before, outer⟩ :: enclosures)
        .empty first (⟨comma, .comma⟩ :: (others ++ ⟨position, .closing⟩ :: rest)) hfirst
        (noOpening_cons (by simp) _)
      rw [List.append_assoc, List.cons_append, hread, Formula.readOn, hends rfl]
      apply ih (part.2 :: before) others (by simp)
      · exact fun part hmem => hreads part (List.mem_cons_of_mem _ hmem)
      · simpa using hothers
      · simpa using hcall

/-- The arguments of a call are read one after the other, and the closing bracket makes the call an
operand. -/
theorem Reads.call {length : Nat} {f : Builtin} {name : String} (hname : name.toLower = f.name)
    {parts : List (List Lexeme × Tree)} (hreads : ∀ part ∈ parts, Reads length .sum part.1 part.2)
    {call : Tree} (hcall : Tree.call? f (parts.map Prod.snd) = some call) :
    Reads length .atom
      (.name name :: .opening :: [.comma].intercalate (parts.map Prod.fst) ++ [.closing]) call := by
  intro enclosures level placed rest hplaced hrest
  obtain ⟨⟨start, _⟩, placed', rfl, rfl, hplaced'⟩ := List.map_eq_cons_iff.mp hplaced
  obtain ⟨⟨bracket, _⟩, placed₂, rfl, rfl, hplaced₂⟩ := List.map_eq_cons_iff.mp hplaced'
  obtain ⟨inside, last, rfl, hinside, hlast⟩ := List.map_eq_append_iff.mp hplaced₂
  obtain ⟨⟨position, _⟩, placed₃, rfl, rfl, hnil⟩ := List.map_eq_cons_iff.mp hlast
  rw [List.map_eq_nil_iff.mp hnil]
  have hne : parts ≠ [] := by
    rintro rfl
    have hlength := (Tree.call?_isSome_iff f []).mp (by simpa using congrArg Option.isSome hcall)
    cases f <;> contradiction
  have hread : Formula.readOperand length (⟨start, .call f [], level⟩ :: enclosures) .empty
        (inside ++ ⟨position, .closing⟩ :: rest) =
      Formula.readOn length enclosures level call rest :=
    readOperand_arguments parts [] inside hne hreads hinside hcall
  refine ⟨level, call, ?_, rfl, rfl⟩
  simp only [List.cons_append, List.append_assoc, List.nil_append, Formula.readOperand,
    Builtin.ofName?_eq_some_iff.mpr hname]
  exact hread

/-! ## Derivations -/

/-- Every derivation is read, production by production. -/
theorem exists_reads (length : Nat) {category : Nonterminal} (parse : ParseTree category) :
    ∃ tree, tree.postorder = parse.tokens ∧ Reads length category parse.lexemes tree := by
  induction parse with
  | ofProduct only ih =>
    obtain ⟨tree, htokens, hreads⟩ := ih
    exact ⟨tree, htokens, hreads.ofProduct⟩
  | sum left op additive right ihleft ihright =>
    obtain ⟨tree, htokens, hreads⟩ := ihleft
    obtain ⟨tree', htokens', hreads'⟩ := ihright
    refine ⟨.binary (.arithmetic op) tree tree', ?_, hreads.sum additive hreads'⟩
    rw [Tree.postorder, htokens, htokens']
    rfl
  | ofSigned only ih =>
    obtain ⟨tree, htokens, hreads⟩ := ih
    exact ⟨tree, htokens, hreads.ofSigned⟩
  | product left op multiplicative right ihleft ihright =>
    obtain ⟨tree, htokens, hreads⟩ := ihleft
    obtain ⟨tree', htokens', hreads'⟩ := ihright
    refine ⟨.binary (.arithmetic op) tree tree', ?_, hreads.product multiplicative hreads'⟩
    rw [Tree.postorder, htokens, htokens']
    rfl
  | plus operand ih =>
    obtain ⟨tree, htokens, hreads⟩ := ih
    exact ⟨tree, htokens, hreads.plus⟩
  | minus operand ih =>
    obtain ⟨tree, htokens, hreads⟩ := ih
    refine ⟨.unary .negate tree, ?_, hreads.minus⟩
    rw [Tree.postorder, htokens]
    rfl
  | ofPower only ih =>
    obtain ⟨tree, htokens, hreads⟩ := ih
    exact ⟨tree, htokens, hreads.ofPower⟩
  | ofAtom only ih =>
    obtain ⟨tree, htokens, hreads⟩ := ih
    exact ⟨tree, htokens, hreads.ofAtom⟩
  | power base exponent ihbase ihexponent =>
    obtain ⟨tree, htokens, hreads⟩ := ihbase
    obtain ⟨tree', htokens', hreads'⟩ := ihexponent
    refine ⟨.binary (.arithmetic .power) tree tree', ?_, hreads.power hreads'⟩
    rw [Tree.postorder, htokens, htokens']
    rfl
  | number text => exact ⟨.number text, rfl, .number text⟩
  | parameter name => exact ⟨.parameter name, rfl, .parameter name⟩
  | call name f named arguments ih =>
    -- There is a tree for each argument, hence as many as the function takes.
    choose trees htokens hreads using ih
    obtain ⟨call, hcall⟩ := Option.isSome_iff_exists.mp
      ((Tree.call?_isSome_iff f (List.ofFn trees)).mpr List.length_ofFn)
    have hparts : ∀ part ∈ List.ofFn fun i => ((arguments i).lexemes, trees i),
        Reads length .sum part.1 part.2 := by
      intro part hpart
      obtain ⟨i, rfl⟩ := List.mem_ofFn.mp hpart
      exact hreads i
    refine ⟨call, ?_, ?_⟩
    · rw [Tree.postorder_of_call? hcall, ParseTree.tokens, List.flatMap_def, List.map_ofFn]
      simp only [Function.comp_def, htokens]
    · have htrees : (List.ofFn fun i => ((arguments i).lexemes, trees i)).map Prod.snd =
          List.ofFn trees := List.map_ofFn
      have hcalled := Reads.call named hparts (htrees ▸ hcall)
      simpa [ParseTree.lexemes, List.map_ofFn, Function.comp_def] using hcalled
  | group inner ih =>
    obtain ⟨tree, htokens, hreads⟩ := ih
    exact ⟨tree, htokens, hreads.group⟩

/-- A list of lexemes that is derived as a sum is read as its tree of operations. -/
theorem exists_readOperand (length : Nat) (parse : ParseTree .sum) {placed : List PlacedLexeme}
    (hplaced : placed.map (·.lexeme) = parse.lexemes) :
    ∃ tree, Formula.readOperand length [] .empty placed = .ok tree ∧
      tree.postorder = parse.tokens := by
  obtain ⟨tree, htokens, hreads⟩ := exists_reads length parse
  obtain ⟨level', operand, hread, hends⟩ := hreads [] .empty placed [] hplaced noOpening_nil
  refine ⟨tree, ?_, htokens⟩
  rw [← List.append_nil placed, hread, Formula.readOn, hends rfl]

end Tariff
