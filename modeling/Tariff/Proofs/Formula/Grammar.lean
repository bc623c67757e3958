/-
# The grammar of formulas

The grammar that formulas obey, as derivation trees. With `E`, `T`, `U`, `P` and `A` for sums,
products, signed operands, powers and atoms, the productions are

* `E → T | E + T | E - T`, so that sums associate to the left;
* `T → U | T * U | T / U`, so that products do too;
* `U → + U | - U | P`;
* `P → A | A ^ U`, so that powers associate to the right and bind tighter than a sign before
  them;
* `A → number | name | function ( E , ... , E ) | ( E )`, with as many arguments as the function
  takes.

Each tree has its yield, the lexemes that it derives, and its post-order, the postfix form.
-/
import Tariff.Formula.Lexeme
import Tariff.Formula.Token

namespace Tariff

/-! ## Derivation trees -/

/-- The categories of the grammar. -/
inductive Nonterminal where
  | sum
  | product
  | signed
  | power
  | atom

/-- The operators of sums. -/
def InfixOperator.IsAdditive (op : InfixOperator) : Prop := op = .add ∨ op = .subtract

/-- The operators of products. -/
def InfixOperator.IsMultiplicative (op : InfixOperator) : Prop := op = .multiply ∨ op = .divide

/-- The derivation trees of a category, with one constructor for each production. -/
inductive ParseTree : Nonterminal → Type where
  | ofProduct (only : ParseTree .product) : ParseTree .sum
  | sum (left : ParseTree .sum) (op : InfixOperator) (additive : op.IsAdditive)
      (right : ParseTree .product) : ParseTree .sum
  | ofSigned (only : ParseTree .signed) : ParseTree .product
  | product (left : ParseTree .product) (op : InfixOperator)
      (multiplicative : op.IsMultiplicative) (right : ParseTree .signed) : ParseTree .product
  | plus (operand : ParseTree .signed) : ParseTree .signed
  | minus (operand : ParseTree .signed) : ParseTree .signed
  | ofPower (only : ParseTree .power) : ParseTree .signed
  | ofAtom (only : ParseTree .atom) : ParseTree .power
  | power (base : ParseTree .atom) (exponent : ParseTree .signed) : ParseTree .power
  | number (text : String) : ParseTree .atom
  | parameter (name : String) : ParseTree .atom
  | call (name : String) (f : Builtin) (named : name.toLower = f.name)
      (arguments : Fin f.arity → ParseTree .sum) : ParseTree .atom
  | group (inner : ParseTree .sum) : ParseTree .atom

namespace ParseTree

/-- The lexemes that a tree derives. -/
def lexemes : {category : Nonterminal} → ParseTree category → List Lexeme
  | _, .ofProduct only => only.lexemes
  | _, .sum left op _ right => left.lexemes ++ .operator op :: right.lexemes
  | _, .ofSigned only => only.lexemes
  | _, .product left op _ right => left.lexemes ++ .operator op :: right.lexemes
  | _, .plus operand => .operator .add :: operand.lexemes
  | _, .minus operand => .operator .subtract :: operand.lexemes
  | _, .ofPower only => only.lexemes
  | _, .ofAtom only => only.lexemes
  | _, .power base exponent => base.lexemes ++ .operator .power :: exponent.lexemes
  | _, .number text => [.number text]
  | _, .parameter name => [.name name]
  | _, .call name _ _ arguments =>
    .name name :: .opening ::
      [.comma].intercalate (List.ofFn fun i => (arguments i).lexemes) ++ [.closing]
  | _, .group inner => .opening :: inner.lexemes ++ [.closing]

/-- The post-order of a tree: operands from left to right, then the operation. Plus signs before
operands and brackets leave no trace. -/
def tokens : {category : Nonterminal} → ParseTree category → List Token
  | _, .ofProduct only => only.tokens
  | _, .sum left op _ right => left.tokens ++ right.tokens ++ [.operator (.between op)]
  | _, .ofSigned only => only.tokens
  | _, .product left op _ right => left.tokens ++ right.tokens ++ [.operator (.between op)]
  | _, .plus operand => operand.tokens
  | _, .minus operand => operand.tokens ++ [.operator .negate]
  | _, .ofPower only => only.tokens
  | _, .ofAtom only => only.tokens
  | _, .power base exponent => base.tokens ++ exponent.tokens ++ [.operator (.between .power)]
  | _, .number text => [.number text]
  | _, .parameter name => [.parameter name]
  | _, .call _ f _ arguments =>
    (List.ofFn fun i => (arguments i).tokens).flatten ++ [.function f]
  | _, .group inner => inner.tokens

end ParseTree

/-! ## Derivability -/

/-- A list of lexemes can be derived in a category, and the post-order of its derivation is that
of a tree of operations. -/
def Derives (category : Nonterminal) (lexemes : List Lexeme) (tree : Tree) : Prop :=
  ∃ parse : ParseTree category, parse.lexemes = lexemes ∧ parse.tokens = tree.postorder

namespace Derives

variable {first second : List Lexeme} {left right tree : Tree}

/-- A product is derived as a sum with a single term. -/
theorem ofProduct (h : Derives .product first tree) : Derives .sum first tree := by
  obtain ⟨parse, rfl, htokens⟩ := h
  exact ⟨.ofProduct parse, rfl, htokens⟩

/-- A sum and a product with an additive operator between them are derived as a sum. -/
theorem sum {op : InfixOperator} (hop : op.IsAdditive) (hleft : Derives .sum first left)
    (hright : Derives .product second right) :
    Derives .sum (first ++ .operator op :: second) (.binary (.arithmetic op) left right) := by
  obtain ⟨parse, rfl, htokens⟩ := hleft
  obtain ⟨parse', rfl, htokens'⟩ := hright
  refine ⟨.sum parse op hop parse', rfl, ?_⟩
  rw [ParseTree.tokens, htokens, htokens']
  rfl

/-- A signed operand is derived as a product with a single factor. -/
theorem ofSigned (h : Derives .signed first tree) : Derives .product first tree := by
  obtain ⟨parse, rfl, htokens⟩ := h
  exact ⟨.ofSigned parse, rfl, htokens⟩

/-- A product and a signed operand with a multiplicative operator between them are derived as a
product. -/
theorem product {op : InfixOperator} (hop : op.IsMultiplicative)
    (hleft : Derives .product first left) (hright : Derives .signed second right) :
    Derives .product (first ++ .operator op :: second) (.binary (.arithmetic op) left right) := by
  obtain ⟨parse, rfl, htokens⟩ := hleft
  obtain ⟨parse', rfl, htokens'⟩ := hright
  refine ⟨.product parse op hop parse', rfl, ?_⟩
  rw [ParseTree.tokens, htokens, htokens']
  rfl

/-- A plus sign before a signed operand leaves its tree as it is. -/
theorem plus (h : Derives .signed first tree) :
    Derives .signed (.operator .add :: first) tree := by
  obtain ⟨parse, rfl, htokens⟩ := h
  exact ⟨.plus parse, rfl, htokens⟩

/-- A minus sign before a signed operand negates its tree. -/
theorem minus (h : Derives .signed first tree) :
    Derives .signed (.operator .subtract :: first) (.unary .negate tree) := by
  obtain ⟨parse, rfl, htokens⟩ := h
  refine ⟨.minus parse, rfl, ?_⟩
  rw [ParseTree.tokens, htokens]
  rfl

/-- An atom is derived as a signed operand, as the power that it is without an exponent. -/
theorem ofAtom (h : Derives .atom first tree) : Derives .signed first tree := by
  obtain ⟨parse, rfl, htokens⟩ := h
  exact ⟨.ofPower (.ofAtom parse), rfl, htokens⟩

/-- An atom with a power sign and a signed operand behind it is derived as a signed operand. -/
theorem power (hbase : Derives .atom first left) (hexponent : Derives .signed second right) :
    Derives .signed (first ++ .operator .power :: second)
      (.binary (.arithmetic .power) left right) := by
  obtain ⟨parse, rfl, htokens⟩ := hbase
  obtain ⟨parse', rfl, htokens'⟩ := hexponent
  refine ⟨.ofPower (.power parse parse'), rfl, ?_⟩
  rw [ParseTree.tokens, ParseTree.tokens, htokens, htokens']
  rfl

/-- A literal is derived as an atom. -/
theorem number (text : String) : Derives .atom [.number text] (.number text) :=
  ⟨.number text, rfl, rfl⟩

/-- A name is derived as an atom. -/
theorem parameter (name : String) : Derives .atom [.name name] (.parameter name) :=
  ⟨.parameter name, rfl, rfl⟩

/-- A sum in brackets is derived as an atom, with the tree of the sum. -/
theorem group (h : Derives .sum first tree) :
    Derives .atom (.opening :: first ++ [.closing]) tree := by
  obtain ⟨parse, rfl, htokens⟩ := h
  exact ⟨.group parse, rfl, htokens⟩

end Derives

/-! ## Calls -/

/-- The arguments of a call, without the comma after the last one. -/
theorem intercalate_comma_append (front : List (List Lexeme)) (last : List Lexeme) :
    [.comma].intercalate (front ++ [last]) = front.flatMap (· ++ [.comma]) ++ last := by
  induction front with
  | nil => simp
  | cons first front ih =>
    rw [List.flatMap_cons, List.append_assoc, ← ih]
    cases front <;> simp

/-- A function called with as many sums as it takes, in whatever case its name is written, is
derived as an atom. -/
theorem Derives.call {f : Builtin} {name : String} (hname : name.toLower = f.name)
    {parses : List (ParseTree .sum)} {arguments : List Tree} {call : Tree}
    (harguments : parses.map ParseTree.tokens = arguments.map Tree.postorder)
    (hcall : Tree.call? f arguments = some call) :
    Derives .atom
      (.name name :: .opening :: [.comma].intercalate (parses.map ParseTree.lexemes) ++ [.closing])
      call := by
  have hlength : parses.length = f.arity := by
    rw [← (Tree.call?_isSome_iff f arguments).mp (by rw [hcall]; rfl)]
    simpa using congrArg List.length harguments
  have hlist : ∀ {α : Type} (g : ParseTree .sum → α),
      List.ofFn (fun i : Fin f.arity => g (parses.get (i.cast hlength.symm))) = parses.map g :=
    fun g => List.ext_getElem (by simp [hlength]) (by simp)
  refine ⟨.call name f hname fun i => parses.get (i.cast hlength.symm), ?_, ?_⟩
  · rw [ParseTree.lexemes, hlist]
  · rw [ParseTree.tokens, hlist, harguments, Tree.postorder_of_call? hcall, List.flatMap_def]

end Tariff
