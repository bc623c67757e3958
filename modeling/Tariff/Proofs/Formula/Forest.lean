/-
# Postfix lists and forests

Every postfix list starts with the post-order of a list of trees, and goes on to its end unless
some token lacks operands. How many values a token finds is a matter of counting, so that
the first token that lacks operands is found without trees.

* `postorder_injective` : a postfix list is the post-order of one tree at most;
* `exists_forest_of_supplied` : a list whose tokens all have their operands is the post-order of
  a list of trees;
* `supplied_or_lacking` : any other list has a first token that lacks operands;
* `exists_tree_iff` : a list is the post-order of a tree exactly when all tokens have their
  operands and one value is left.
-/
import Mathlib.Data.List.Basic
import Mathlib.Data.List.Induction
import Tariff.Formula.Token

namespace Tariff

/-! ## Counting values -/

/-- The number of operands that a token takes. -/
def Token.arity : Token → Nat
  | .number _ => 0
  | .parameter _ => 0
  | .operator op => op.arity
  | .function f => f.arity

/-- The number of values that a list leaves, if each of its tokens has its operands: every token
takes as many as its arity, and leaves one. -/
def valuesAfter (tokens : List Token) : Nat :=
  tokens.foldl (fun count token => count + 1 - token.arity) 0

/-- Every token of the list has its operands. -/
def Supplied (tokens : List Token) : Prop :=
  ∀ before token after, tokens = before ++ token :: after → token.arity ≤ valuesAfter before

theorem valuesAfter_append_singleton (tokens : List Token) (token : Token) :
    valuesAfter (tokens ++ [token]) = valuesAfter tokens + 1 - token.arity := by
  rw [valuesAfter, List.foldl_append]
  rfl

theorem supplied_nil : Supplied [] := by
  intro before token after h
  simp at h

/-- A list is supplied if it was so far and the next token has its operands. -/
theorem supplied_append_singleton {tokens : List Token} {token : Token} :
    Supplied (tokens ++ [token]) ↔ Supplied tokens ∧ token.arity ≤ valuesAfter tokens := by
  constructor
  · intro h
    refine ⟨?_, h tokens token [] rfl⟩
    rintro before first after rfl
    exact h before first (after ++ [token]) (by simp)
  · rintro ⟨htokens, htoken⟩ before first after hsplit
    rcases List.eq_nil_or_concat after with rfl | ⟨others, last, rfl⟩
    · obtain ⟨rfl, hlast⟩ := List.append_inj' hsplit rfl
      cases hlast
      exact htoken
    · rw [List.concat_eq_append, ← List.cons_append, ← List.append_assoc] at hsplit
      exact htokens before first others (List.append_inj' hsplit rfl).1

/-- Either all tokens have their operands, or there is a first one that lacks them. -/
theorem supplied_or_lacking (tokens : List Token) :
    Supplied tokens ∨ ∃ before token after, tokens = before ++ token :: after ∧
      Supplied before ∧ valuesAfter before < token.arity := by
  induction tokens using List.reverseRecOn with
  | nil => exact Or.inl supplied_nil
  | append_singleton tokens last ih =>
    -- A first token that lacks operands stays the first one, whatever follows.
    rcases ih with hsupplied | ⟨before, token, after, rfl, hbefore, hlacking⟩
    · by_cases hlast : last.arity ≤ valuesAfter tokens
      · exact Or.inl (supplied_append_singleton.mpr ⟨hsupplied, hlast⟩)
      · exact Or.inr ⟨tokens, last, [], rfl, hsupplied, by omega⟩
    · exact Or.inr ⟨before, token, after ++ [last], by simp, hbefore, hlacking⟩

namespace Tree

/-! ## Forests -/

/-- An operation takes any trees, as many as its operands. -/
theorem exists_of_operation (operation : Operation) {operands : List Tree}
    (h : operands.length = operation.arity) :
    ∃ tree : Tree, tree.postorder = operands.flatMap postorder ++ [operation.token] := by
  cases operation with
  | unary op =>
    obtain ⟨operand, rfl⟩ := List.length_eq_one_iff.mp h
    exact ⟨.unary op operand, by simp [postorder, Operation.token]⟩
  | binary op =>
    obtain ⟨left, right, rfl⟩ := List.length_eq_two.mp h
    exact ⟨.binary op left right, by simp [postorder, Operation.token]⟩
  | choice =>
    obtain ⟨condition, positive, otherwise, rfl⟩ := List.length_eq_three.mp h
    exact ⟨.choice condition positive otherwise, by simp [postorder, Operation.token]⟩

/-- A token takes any trees, as many as its operands. -/
theorem exists_of_token (token : Token) {operands : List Tree}
    (h : operands.length = token.arity) :
    ∃ tree : Tree, tree.postorder = operands.flatMap postorder ++ [token] := by
  cases token with
  | number text =>
    rw [List.eq_nil_of_length_eq_zero h]
    exact ⟨.number text, rfl⟩
  | parameter name =>
    rw [List.eq_nil_of_length_eq_zero h]
    exact ⟨.parameter name, rfl⟩
  | operator op =>
    rw [← op.token_operation]
    exact exists_of_operation op.operation h
  | function f =>
    rw [← f.token_operation]
    exact exists_of_operation f.operation h

/-- A token after a forest takes the last trees of it, and becomes a tree with them. -/
theorem exists_forest_append (forest : List Tree) {token : Token}
    (h : token.arity ≤ forest.length) :
    ∃ next : List Tree, next.length = forest.length + 1 - token.arity ∧
      next.flatMap postorder = forest.flatMap postorder ++ [token] := by
  -- The operands are the last trees, as many as the arity says.
  have hsplit := List.take_append_drop (forest.length - token.arity) forest
  have hoperands : (forest.drop (forest.length - token.arity)).length = token.arity := by
    rw [List.length_drop]
    omega
  obtain ⟨tree, htree⟩ := exists_of_token token hoperands
  refine ⟨forest.take (forest.length - token.arity) ++ [tree], ?_, ?_⟩
  · rw [List.length_append, List.length_take, List.length_singleton]
    omega
  · rw [List.flatMap_append, List.flatMap_singleton, htree, ← List.append_assoc,
      ← List.flatMap_append, hsplit]

end Tree

/-- A list whose tokens all have their operands is the post-order of a forest, with a tree for
each value that is left. -/
theorem exists_forest_of_supplied {tokens : List Token} (h : Supplied tokens) :
    ∃ forest : List Tree, forest.flatMap Tree.postorder = tokens ∧
      forest.length = valuesAfter tokens := by
  induction tokens using List.reverseRecOn with
  | nil => exact ⟨[], rfl, rfl⟩
  | append_singleton tokens last ih =>
    obtain ⟨hsupplied, hlast⟩ := supplied_append_singleton.mp h
    obtain ⟨forest, rfl, hlength⟩ := ih hsupplied
    obtain ⟨next, hnext, hpostorder⟩ := Tree.exists_forest_append forest (hlength ▸ hlast)
    exact ⟨next, hpostorder, by rw [hnext, valuesAfter_append_singleton, hlength]⟩

/-! ## Reading trees back -/

namespace Tree

/-- Lets an operation take its trees off a stack, whose top is the head of the list. -/
def combine? : Operation → List Tree → Option (List Tree)
  | .unary op, operand :: rest => some (.unary op operand :: rest)
  | .binary op, right :: left :: rest => some (.binary op left right :: rest)
  | .choice, otherwise :: positive :: condition :: rest =>
    some (.choice condition positive otherwise :: rest)
  | _, _ => none

/-- What a token does to a stack of trees. -/
def attach? : Token → List Tree → Option (List Tree)
  | .number text, stack => some (.number text :: stack)
  | .parameter name, stack => some (.parameter name :: stack)
  | .operator op, stack => combine? op.operation stack
  | .function f, stack => combine? f.operation stack

/-- What a postfix list does to a stack of trees. -/
def assemble? : List Token → List Tree → Option (List Tree)
  | [], stack => some stack
  | token :: tokens, stack => (attach? token stack).bind (assemble? tokens)

theorem attach?_token (operation : Operation) (stack : List Tree) :
    attach? operation.token stack = combine? operation stack := by
  cases operation with
  | unary op => cases op <;> rfl
  | binary op => cases op <;> rfl
  | choice => rfl

/-- The post-order of a tree puts the tree on the stack. -/
theorem assemble?_postorder (tree : Tree) (rest : List Token) (stack : List Tree) :
    assemble? (tree.postorder ++ rest) stack = assemble? rest (tree :: stack) := by
  induction tree generalizing rest stack with
  | number text => rfl
  | parameter name => rfl
  | unary op operand ih =>
    rw [postorder, List.append_assoc, ih, List.singleton_append, assemble?]
    show (attach? (Operation.unary op).token (operand :: stack)).bind _ = _
    rw [attach?_token]
    rfl
  | binary op left right ihl ihr =>
    rw [postorder, List.append_assoc, List.append_assoc, ihl, ihr, List.singleton_append,
      assemble?]
    show (attach? (Operation.binary op).token (right :: left :: stack)).bind _ = _
    rw [attach?_token]
    rfl
  | choice condition positive otherwise ihc ihp iho =>
    rw [postorder, List.append_assoc, List.append_assoc, List.append_assoc, ihc, ihp, iho]
    rfl

/-- The post-order of a tree determines the tree. -/
theorem postorder_injective : Function.Injective postorder := by
  intro tree other h
  have htree := assemble?_postorder tree [] []
  rw [h, assemble?_postorder other] at htree
  simp only [assemble?, Option.some.injEq, List.cons.injEq, and_true] at htree
  exact htree.symm

end Tree

/-! ## Counting in post-orders -/

theorem Operation.arity_token (operation : Operation) :
    operation.token.arity = operation.arity := by
  cases operation with
  | unary op => cases op <;> rfl
  | binary op => cases op <;> rfl
  | choice => rfl

/-- In a post-order all tokens have their operands, and they leave one value more. What stands
before has to be supplied, too: a count of natural numbers does not go below zero. -/
theorem supplied_append_postorder (tree : Tree) {before : List Token} (h : Supplied before) :
    Supplied (before ++ tree.postorder) ∧
      valuesAfter (before ++ tree.postorder) = valuesAfter before + 1 := by
  induction tree generalizing before with
  | number text =>
    rw [Tree.postorder, supplied_append_singleton, valuesAfter_append_singleton]
    exact ⟨⟨h, Nat.zero_le _⟩, rfl⟩
  | parameter name =>
    rw [Tree.postorder, supplied_append_singleton, valuesAfter_append_singleton]
    exact ⟨⟨h, Nat.zero_le _⟩, rfl⟩
  | unary op operand ih =>
    obtain ⟨hoperand, hcount⟩ := ih h
    have harity : op.token.arity = 1 := Operation.arity_token (.unary op)
    rw [Tree.postorder, ← List.append_assoc, supplied_append_singleton,
      valuesAfter_append_singleton, harity]
    exact ⟨⟨hoperand, by omega⟩, by omega⟩
  | binary op left right ihl ihr =>
    obtain ⟨hleft, hfirst⟩ := ihl h
    obtain ⟨hright, hsecond⟩ := ihr hleft
    have harity : op.token.arity = 2 := Operation.arity_token (.binary op)
    rw [Tree.postorder, ← List.append_assoc, ← List.append_assoc, supplied_append_singleton,
      valuesAfter_append_singleton, harity]
    exact ⟨⟨hright, by omega⟩, by omega⟩
  | choice condition positive otherwise ihc ihp iho =>
    obtain ⟨hcondition, hfirst⟩ := ihc h
    obtain ⟨hpositive, hsecond⟩ := ihp hcondition
    obtain ⟨hotherwise, hthird⟩ := iho hpositive
    have harity : (Token.function .choose).arity = 3 := Operation.arity_token .choice
    rw [Tree.postorder, ← List.append_assoc, ← List.append_assoc, ← List.append_assoc,
      supplied_append_singleton, valuesAfter_append_singleton, harity]
    exact ⟨⟨hotherwise, by omega⟩, by omega⟩

/-- A list is the post-order of a tree exactly when each of its tokens has its operands and one
value is left. -/
theorem exists_tree_iff (tokens : List Token) :
    (∃ tree : Tree, tree.postorder = tokens) ↔ Supplied tokens ∧ valuesAfter tokens = 1 := by
  constructor
  · rintro ⟨tree, rfl⟩
    exact supplied_append_postorder tree supplied_nil
  · rintro ⟨hsupplied, hcount⟩
    obtain ⟨forest, rfl, hlength⟩ := exists_forest_of_supplied hsupplied
    obtain ⟨tree, rfl⟩ := List.length_eq_one_iff.mp (hlength.trans hcount)
    exact ⟨tree, by rw [List.flatMap_singleton]⟩

end Tariff
