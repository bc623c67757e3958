/-
# The reader follows the precedence of operators

A level has no table of precedences: how tightly an operator binds is the place that it takes
there. Here the places are related to the table. The operators of a level, the innermost first,
wait as on a stack, and an operator that follows an operand takes those off it that bind their
operands before it does: those of higher precedence, and those of its own precedence unless it
associates to the right.

* `Level.postorder_whole` : what a level makes of an operand is what it has put out, the operand,
  and its operators from the innermost on.
* `Level.Covers.inOrder` : the operators of a level that covers what has been read are at places
  of their precedence.
* `Level.push_by_precedence` : what waits and what has been put out after an operator.
-/
import Tariff.Proofs.Formula.Reading

namespace Tariff

/-! ## What waits and what has been put out -/

/-- The operator of a link. -/
def Link.operator : Link → Operator
  | .negated => .negate
  | .base _ => .between .power

/-- The postfix form of what stands left of a link's operator. -/
def Link.output : Link → List Token
  | .negated => []
  | .base tree => tree.postorder

/-- The operator of a waiting left side, if there is one. -/
def Level.operatorOf (side : Option (Tree × InfixOperator)) : List Operator :=
  side.toList.map fun entry => .between entry.2

/-- The postfix form of a waiting left side. -/
def Level.outputOf (side : Option (Tree × InfixOperator)) : List Token :=
  side.toList.flatMap fun entry => entry.1.postorder

/-- The operators that wait inside the sum, the innermost first. -/
def Level.inner (level : Level) : List Operator :=
  level.chain.map Link.operator ++ operatorOf level.product

/-- The operators that wait for their right operand, the innermost first. -/
def Level.waiting (level : Level) : List Operator := level.inner ++ operatorOf level.sum

/-- The postfix form of what stands left of the operators that wait. -/
def Level.output (level : Level) : List Token :=
  outputOf level.sum ++ outputOf level.product ++ level.chain.reverse.flatMap Link.output

namespace Level

/-- A left side puts out its postfix form. -/
@[simp]
theorem outputOf_some (left : Tree) (op : InfixOperator) :
    outputOf (some (left, op)) = left.postorder := by
  simp [outputOf]

/-- Without a left side nothing is put out. -/
@[simp]
theorem outputOf_none : outputOf none = [] := rfl

/-- The operator of a left side is the one that stands behind it. -/
theorem mem_operatorOf {side : Option (Tree × InfixOperator)} {op : Operator} :
    op ∈ operatorOf side ↔ ∃ left next, side = some (left, next) ∧ .between next = op := by
  simp [operatorOf]

/-- Closing a chain puts its operators out, the innermost first. -/
theorem postorder_closeChain (links : List Link) (tree : Tree) :
    (closeChain links tree).postorder =
      links.reverse.flatMap Link.output ++ tree.postorder ++
        (links.map Link.operator).map Token.operator := by
  induction links generalizing tree with
  | nil => simp [closeChain]
  | cons link links ih =>
    cases link with
    | negated =>
      rw [closeChain, ih, Tree.postorder]
      simp [Link.output, Link.operator, UnaryOperation.token]
    | base base =>
      rw [closeChain, ih, Tree.postorder]
      simp [Link.output, Link.operator, BinaryOperation.token]

/-- Giving a left side its right operand puts its operator out behind both. -/
theorem postorder_join (side : Option (Tree × InfixOperator)) (tree : Tree) :
    (join side tree).postorder =
      outputOf side ++ tree.postorder ++ (operatorOf side).map Token.operator := by
  cases side with
  | none => simp [join, operatorOf]
  | some entry =>
    obtain ⟨left, op⟩ := entry
    rw [join, Tree.postorder]
    simp [operatorOf, BinaryOperation.token]

/-- The post-order of the product that ends with an operand. -/
theorem postorder_term (level : Level) (operand : Tree) :
    (level.term operand).postorder =
      outputOf level.product ++ level.chain.reverse.flatMap Link.output ++ operand.postorder ++
        level.inner.map Token.operator := by
  rw [term, postorder_join, factor, postorder_closeChain]
  simp [inner]

/-- What a level makes of an operand puts out the operators that wait, the innermost first. -/
theorem postorder_whole (level : Level) (operand : Tree) :
    (level.whole operand).postorder =
      level.output ++ operand.postorder ++ level.waiting.map Token.operator := by
  rw [whole, postorder_join, postorder_term]
  simp [output, waiting]

end Level

/-! ## Operators that bind first -/

/-- Whether an operator that waits takes its right operand before `next`, which follows that
operand, does: it has the higher precedence, or the same and `next` does not associate to the
right. -/
def Operator.bindsBefore (next waiting : Operator) : Bool :=
  decide (next.precedence < waiting.precedence) ||
    (waiting.precedence == next.precedence && !next.isRightAssociative)

namespace InfixOperator

variable {op : InfixOperator}

instance : Decidable op.IsAdditive := inferInstanceAs (Decidable (_ ∨ _))

/-- Every operator is the power sign, one of products or one of sums. -/
theorem power_or_multiplicative_or_additive (op : InfixOperator) :
    op = .power ∨ op.IsMultiplicative ∨ op.IsAdditive := by
  unfold IsMultiplicative IsAdditive
  cases op <;> simp

/-- The signs and powers of a chain bind before all operators but the power sign. -/
theorem bindsBefore_link (next : InfixOperator) (link : Link) :
    Operator.bindsBefore (.between next) link.operator = decide (next ≠ .power) := by
  cases next <;> cases link <;> rfl

/-- So do the operators of products. -/
theorem IsMultiplicative.bindsBefore (h : op.IsMultiplicative) (next : InfixOperator) :
    Operator.bindsBefore (.between next) (.between op) = decide (next ≠ .power) := by
  obtain rfl | rfl := h <;> cases next <;> rfl

/-- The operators of sums bind before each other only. -/
theorem IsAdditive.bindsBefore (h : op.IsAdditive) (next : InfixOperator) :
    Operator.bindsBefore (.between next) (.between op) = decide next.IsAdditive := by
  obtain rfl | rfl := h <;> cases next <;> rfl

end InfixOperator

/-! ## Operators at their places -/

/-- The operators of a level are at places of their precedence. -/
structure Level.InOrder (level : Level) : Prop where
  sum : ∀ left op, level.sum = some (left, op) → op.IsAdditive
  product : ∀ left op, level.product = some (left, op) → op.IsMultiplicative

/-- The operator of a left side that covers lexemes is one of those that its place allows. -/
theorem SideCovers.allowed {category : Nonterminal} {allowed : InfixOperator → Prop}
    {side : Option (Tree × InfixOperator)} {lexemes : List Lexeme}
    (h : SideCovers category allowed side lexemes) :
    ∀ left op, side = .some (left, op) → allowed op := by
  cases h with
  | none => simp
  | some _ hop =>
    intro left op heq
    cases heq
    exact hop

namespace Level

variable {level : Level} {op : InfixOperator}

/-- A level that covers the lexemes that have been read is in order. -/
theorem Covers.inOrder {lexemes : List Lexeme} (h : level.Covers lexemes) : level.InOrder := by
  obtain ⟨hsum, hproduct, -⟩ := h
  exact ⟨hsum.allowed, hproduct.allowed⟩

/-- An operator of products closes the chain and takes the place of a left side of a product. -/
theorem push_of_isMultiplicative (hop : op.IsMultiplicative) (level : Level) (operand : Tree) :
    level.push operand op =
      { level with product := some (level.term operand, op), chain := [] } := by
  obtain rfl | rfl := hop <;> rfl

/-- An operator of sums closes all that waits. -/
theorem push_of_isAdditive (hop : op.IsAdditive) (level : Level) (operand : Tree) :
    level.push operand op = ⟨some (level.whole operand, op), none, []⟩ := by
  obtain rfl | rfl := hop <;> rfl

/-- The operators inside the sum bind before all operators but the power sign. -/
theorem InOrder.bindsBefore_inner (h : level.InOrder) (next : InfixOperator) {waiting : Operator}
    (hwaiting : waiting ∈ level.inner) :
    Operator.bindsBefore (.between next) waiting = decide (next ≠ .power) := by
  rw [inner, List.mem_append, List.mem_map] at hwaiting
  obtain ⟨link, -, rfl⟩ | hwaiting := hwaiting
  · exact next.bindsBefore_link link
  · obtain ⟨left, op, hside, rfl⟩ := mem_operatorOf.mp hwaiting
    exact (h.product left op hside).bindsBefore next

/-- The operator of the sum binds before those of sums only. -/
theorem InOrder.bindsBefore_sum (h : level.InOrder) (next : InfixOperator) {waiting : Operator}
    (hwaiting : waiting ∈ operatorOf level.sum) :
    Operator.bindsBefore (.between next) waiting = decide next.IsAdditive := by
  obtain ⟨left, op, hside, rfl⟩ := mem_operatorOf.mp hwaiting
  exact (h.sum left op hside).bindsBefore next

end Level

/-! ## What an operator takes off -/

/-- What is taken off a list, and what is left of it, where what satisfies the test comes first. -/
theorem takeWhile_dropWhile_append {α : Type} {p : α → Bool} {s t : List α}
    (hfront : ∀ a ∈ s, p a = true) (hback : ∀ a ∈ t, p a = false) :
    (s ++ t).takeWhile p = s ∧ (s ++ t).dropWhile p = t := by
  rw [List.takeWhile_append_of_pos hfront, List.dropWhile_append_of_pos hfront]
  cases t with
  | nil => simp
  | cons first rest => simp [hback first (by simp)]

namespace Level

variable {level : Level} {next : InfixOperator}

/-- The power sign takes nothing off. -/
theorem InOrder.split_of_power (h : level.InOrder) :
    level.waiting.takeWhile (Operator.bindsBefore (.between .power)) = [] ∧
      level.waiting.dropWhile (Operator.bindsBefore (.between .power)) = level.waiting := by
  refine takeWhile_dropWhile_append (s := []) (by simp) fun waiting hwaiting => ?_
  obtain hwaiting | hwaiting := List.mem_append.mp hwaiting
  · exact h.bindsBefore_inner .power hwaiting
  · exact h.bindsBefore_sum .power hwaiting

/-- An operator of products takes off what waits inside the sum. -/
theorem InOrder.split_of_isMultiplicative (h : level.InOrder) (hnext : next.IsMultiplicative) :
    level.waiting.takeWhile (Operator.bindsBefore (.between next)) = level.inner ∧
      level.waiting.dropWhile (Operator.bindsBefore (.between next)) = operatorOf level.sum := by
  refine takeWhile_dropWhile_append (fun waiting hwaiting => ?_) fun waiting hwaiting => ?_
  · rw [h.bindsBefore_inner next hwaiting]
    obtain rfl | rfl := hnext <;> rfl
  · rw [h.bindsBefore_sum next hwaiting]
    obtain rfl | rfl := hnext <;> rfl

/-- An operator of sums takes off all that waits. -/
theorem InOrder.split_of_isAdditive (h : level.InOrder) (hnext : next.IsAdditive) :
    level.waiting.takeWhile (Operator.bindsBefore (.between next)) = level.waiting ∧
      level.waiting.dropWhile (Operator.bindsBefore (.between next)) = [] := by
  have hall : ∀ waiting ∈ level.waiting,
      Operator.bindsBefore (.between next) waiting = true := by
    intro waiting hwaiting
    obtain hwaiting | hwaiting := List.mem_append.mp hwaiting
    · rw [h.bindsBefore_inner next hwaiting]
      obtain rfl | rfl := hnext <;> rfl
    · rw [h.bindsBefore_sum next hwaiting]
      exact decide_eq_true hnext
  have hsplit := takeWhile_dropWhile_append (t := []) hall (by simp)
  rwa [List.append_nil] at hsplit

/-- A minus sign where an operand is due waits itself and takes nothing off. -/
theorem negate_by_precedence (level : Level) :
    level.negate.waiting = .negate :: level.waiting ∧ level.negate.output = level.output := by
  refine ⟨rfl, ?_⟩
  simp [output, negate, Link.output]

/-- **An operator takes off what waits the operators that bind before it, and waits itself.** They
are put out behind the operand, the innermost first, and the others stay as they are. -/
theorem push_by_precedence {lexemes : List Lexeme} (h : level.Covers lexemes) (operand : Tree)
    (next : InfixOperator) :
    (level.push operand next).waiting =
        .between next :: level.waiting.dropWhile (Operator.bindsBefore (.between next)) ∧
      (level.push operand next).output =
        level.output ++ operand.postorder ++
          (level.waiting.takeWhile (Operator.bindsBefore (.between next))).map Token.operator := by
  obtain rfl | hnext | hnext := next.power_or_multiplicative_or_additive
  · obtain ⟨htake, hdrop⟩ := h.inOrder.split_of_power
    rw [htake, hdrop]
    refine ⟨rfl, ?_⟩
    simp [output, push, Link.output]
  · obtain ⟨htake, hdrop⟩ := h.inOrder.split_of_isMultiplicative hnext
    rw [htake, hdrop, push_of_isMultiplicative hnext]
    refine ⟨rfl, ?_⟩
    simp [output, postorder_term]
  · obtain ⟨htake, hdrop⟩ := h.inOrder.split_of_isAdditive hnext
    rw [htake, hdrop, push_of_isAdditive hnext]
    refine ⟨rfl, ?_⟩
    simp [output, postorder_whole]

end Level

end Tariff
