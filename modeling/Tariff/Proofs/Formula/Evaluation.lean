/-
# The stack machine and the trees

The stack machine computes what the trees mean. On the post-order of a tree it does what the
tree's evaluation does, whatever is on the stack and whatever follows. It succeeds on no other
lists: its stack grows and shrinks as counting says, so that it notices the first token that
lacks operands.

* `step_eq` : what a token does, with its operands in the order of the formula;
* `runTokens_postorder` : running the post-order of a tree evaluates the tree;
* `runTokens_error_iff` : a run fails at its first token that fails;
* `evaluateTokens_tree_semantics` : the results and the errors of all postfix lists.
-/
import Tariff.Formula.Evaluation
import Tariff.Proofs.Formula.Forest
import Tariff.Proofs.Outcome

namespace Tariff

/-! ## What a token does -/

/-- The result of an operation on its operands, in the order of the formula. -/
def Operation.apply (operation : Operation) (operands : Fin operation.arity → Decimal) :
    Except ArithmeticFault Decimal :=
  match operation, operands with
  | .unary op, (operands : Fin 1 → Decimal) => op.apply (operands 0)
  | .binary op, (operands : Fin 2 → Decimal) => op.apply (operands 0) (operands 1)
  | .choice, (operands : Fin 3 → Decimal) => .ok (chooseBy (operands 0) (operands 1) (operands 2))

/-- The value of a token for its operands, in the order of the formula. -/
def Token.apply (source : ParameterSource) (index : Nat) (token : Token)
    (operands : Fin token.arity → Decimal) : Except RuleError Decimal :=
  match token, operands with
  | .number text, _ => literal index text
  | .parameter name, _ => resolve source name
  | .operator op, operands => (op.operation.apply operands).mapError .arithmetic
  | .function f, operands => (f.operation.apply operands).mapError .arithmetic

/-- The operands that lie on top of a stack, whose top is the last of them. -/
def topOperands {count : Nat} (stack : List Decimal) (h : count ≤ stack.length) :
    Fin count → Decimal :=
  fun i => stack.get ⟨count - 1 - i, by omega⟩

/-- An operation takes its operands off the stack and leaves its result, or finds too few. -/
theorem perform_eq (index : Nat) (token : Token) (operation : Operation) (stack : List Decimal) :
    perform index token operation stack =
      if h : operation.arity ≤ stack.length then do
        let value ← (operation.apply (topOperands stack h)).mapError .arithmetic
        return value :: stack.drop operation.arity
      else .error (.unstructured index (.missingOperands token operation.arity stack.length)) := by
  cases operation with
  | unary op =>
    rcases stack with _ | ⟨operand, rest⟩
    · rfl
    · rfl
  | binary op =>
    rcases stack with _ | ⟨right, _ | ⟨left, rest⟩⟩
    · rfl
    · rfl
    · rfl
  | choice =>
    rcases stack with _ | ⟨otherwise, _ | ⟨positive, _ | ⟨condition, rest⟩⟩⟩
    · rfl
    · rfl
    · rfl
    · rfl

/-- A token takes its operands off the stack and leaves its value, or finds too few. -/
theorem step_eq (source : ParameterSource) (index : Nat) (token : Token) (stack : List Decimal) :
    step source index token stack =
      if h : token.arity ≤ stack.length then do
        let value ← token.apply source index (topOperands stack h)
        return value :: stack.drop token.arity
      else .error (.unstructured index (.missingOperands token token.arity stack.length)) := by
  cases token with
  | number text => rfl
  | parameter name => rfl
  | operator op => exact perform_eq index (.operator op) op.operation stack
  | function f => exact perform_eq index (.function f) f.operation stack

/-- Why a token that has its operands has no value. -/
theorem Token.apply_error_cases {source : ParameterSource} {index : Nat} {token : Token}
    {operands : Fin token.arity → Decimal} {error : RuleError}
    (h : token.apply source index operands = .error error) :
    (∃ text fault, token = .number text ∧ Decimal.ofText text = .error fault ∧
      error = .malformed ⟨index, .unreadableNumber text fault⟩) ∨
    (∃ name, token = .parameter name ∧ source name = none ∧ error = .parameterMissing name) ∨
    (∃ name value, token = .parameter name ∧ source name = some value ∧
      value.toDecimal? = none ∧ error = .notNumeric name value.kind) ∨
    ∃ fault, error = .arithmetic fault := by
  cases token with
  | number text =>
    left
    simp only [Token.apply, literal] at h
    split at h
    · contradiction
    · next fault hfault =>
      cases h
      exact ⟨text, fault, rfl, hfault, rfl⟩
  | parameter name =>
    right
    simp only [Token.apply, resolve] at h
    split at h
    · next hnone =>
      cases h
      exact Or.inl ⟨name, rfl, hnone, rfl⟩
    · next value hvalue =>
      split at h
      · contradiction
      · next hdecimal =>
        cases h
        exact Or.inr (Or.inl ⟨name, value, rfl, hvalue, hdecimal, rfl⟩)
  | operator op =>
    obtain ⟨fault, -, rfl⟩ := mapError_eq_error_iff.mp h
    exact Or.inr (Or.inr (Or.inr ⟨fault, rfl⟩))
  | function f =>
    obtain ⟨fault, -, rfl⟩ := mapError_eq_error_iff.mp h
    exact Or.inr (Or.inr (Or.inr ⟨fault, rfl⟩))

/-! ## Running the post-order of a tree -/

theorem step_token (source : ParameterSource) (index : Nat) (operation : Operation)
    (stack : List Decimal) :
    step source index operation.token stack = perform index operation.token operation stack := by
  cases operation with
  | unary op => cases op <;> rfl
  | binary op => cases op <;> rfl
  | choice => rfl

/-- Running the post-order of a tree evaluates the tree, and runs on with its value on the
stack. -/
theorem runTokens_postorder (source : ParameterSource) (tree : Tree) (index : Nat)
    (rest : List Token) (stack : List Decimal) :
    runTokens source index (tree.postorder ++ rest) stack = (do
      let value ← tree.evaluate source index
      runTokens source (index + tree.postorder.length) rest (value :: stack)) := by
  induction tree generalizing index rest stack with
  | number text =>
    show (literal index text >>= fun value => pure (value :: stack)) >>= _ = _
    rw [bind_assoc]
    rfl
  | parameter name =>
    show (resolve source name >>= fun value => pure (value :: stack)) >>= _ = _
    rw [bind_assoc]
    rfl
  -- In the other cases the operands run first, each from where the one before it ends; if all of
  -- them have values, the last token takes these off the stack.
  | unary op operand ih =>
    rw [Tree.postorder, List.append_assoc, ih, Tree.evaluate, bind_assoc]
    congr 1
    funext value
    rw [List.singleton_append, runTokens]
    show (step source _ (Operation.unary op).token _ >>= _) = _
    rw [step_token]
    show ((op.apply value).mapError RuleError.arithmetic >>=
      fun result => pure (result :: stack)) >>= _ = _
    rw [bind_assoc, List.length_append]
    rfl
  | binary op left right ihl ihr =>
    rw [Tree.postorder, List.append_assoc, List.append_assoc, ihl, Tree.evaluate, bind_assoc]
    congr 1
    funext first
    rw [ihr, bind_assoc]
    congr 1
    funext second
    rw [List.singleton_append, runTokens]
    show (step source _ (Operation.binary op).token _ >>= _) = _
    rw [step_token]
    show ((op.apply first second).mapError RuleError.arithmetic >>=
      fun result => pure (result :: stack)) >>= _ = _
    rw [bind_assoc, List.length_append, List.length_append, Nat.add_assoc, Nat.add_assoc]
    rfl
  | choice condition positive otherwise ihc ihp iho =>
    rw [Tree.postorder, List.append_assoc, List.append_assoc, List.append_assoc, ihc,
      Tree.evaluate, bind_assoc]
    congr 1
    funext first
    rw [ihp, bind_assoc]
    congr 1
    funext second
    rw [iho, bind_assoc]
    congr 1
    funext third
    rw [List.length_append, List.length_append, List.length_append, ← Nat.add_assoc,
      ← Nat.add_assoc, ← Nat.add_assoc]
    rfl

/-! ## The size of the stack -/

/-- A token that succeeds has had its operands, and has left one value for them. -/
theorem length_of_step {source : ParameterSource} {index : Nat} {token : Token}
    {stack next : List Decimal} (h : step source index token stack = .ok next) :
    token.arity ≤ stack.length ∧ next.length = stack.length + 1 - token.arity := by
  rw [step_eq] at h
  split at h
  · next harity =>
    obtain ⟨value, -, hnext⟩ := bind_eq_ok_iff.mp h
    cases hnext
    refine ⟨harity, ?_⟩
    rw [List.length_cons, List.length_drop]
    omega
  · contradiction

theorem step_of_lacking (source : ParameterSource) (index : Nat) {token : Token}
    {stack : List Decimal} (h : stack.length < token.arity) :
    step source index token stack =
      .error (.unstructured index (.missingOperands token token.arity stack.length)) := by
  rw [step_eq, dif_neg (by omega)]

theorem runTokens_append (source : ParameterSource) (index : Nat) (before after : List Token)
    (stack : List Decimal) :
    runTokens source index (before ++ after) stack = (do
      let next ← runTokens source index before stack
      runTokens source (index + before.length) after next) := by
  induction before generalizing index stack with
  | nil => rfl
  | cons token before ih =>
    rw [List.cons_append, runTokens, runTokens, bind_assoc]
    congr 1
    funext next
    rw [ih, List.length_cons, Nat.add_assoc, Nat.add_comm 1]

theorem runTokens_singleton (source : ParameterSource) (index : Nat) (token : Token)
    (stack : List Decimal) :
    runTokens source index [token] stack = step source index token stack := by
  show step source index token stack >>= pure = _
  rw [bind_pure]

/-- The stack after a run is as high as counting says, and no token lacked operands. -/
theorem supplied_of_runTokens {source : ParameterSource} {tokens : List Token}
    {stack : List Decimal} (h : runTokens source 0 tokens [] = .ok stack) :
    Supplied tokens ∧ stack.length = valuesAfter tokens := by
  induction tokens using List.reverseRecOn generalizing stack with
  | nil =>
    cases h
    exact ⟨supplied_nil, rfl⟩
  | append_singleton tokens last ih =>
    rw [runTokens_append, bind_eq_ok_iff] at h
    obtain ⟨before, hbefore, hlast⟩ := h
    rw [runTokens_singleton] at hlast
    obtain ⟨hsupplied, hlength⟩ := ih hbefore
    obtain ⟨harity, hnext⟩ := length_of_step hlast
    rw [hlength] at harity hnext
    exact ⟨supplied_append_singleton.mpr ⟨hsupplied, harity⟩,
      by rw [hnext, valuesAfter_append_singleton]⟩

/-! ## The first failure -/

/-- A run from the start reaches the token of the given index, and fails there. -/
def FailsAt (source : ParameterSource) (tokens : List Token) (index : Nat) (error : RuleError) :
    Prop :=
  ∃ token stack, tokens[index]? = some token ∧
    runTokens source 0 (tokens.take index) [] = .ok stack ∧
    step source index token stack = .error error

theorem FailsAt.lt_length {source : ParameterSource} {tokens : List Token} {index : Nat}
    {error : RuleError} (h : FailsAt source tokens index error) : index < tokens.length := by
  obtain ⟨token, stack, htoken, -⟩ := h
  exact (List.getElem?_eq_some_iff.mp htoken).1

/-- Whether a token fails does not depend on what follows it. -/
theorem failsAt_append_iff {source : ParameterSource} {before after : List Token} {index : Nat}
    {error : RuleError} (h : index < before.length) :
    FailsAt source (before ++ after) index error ↔ FailsAt source before index error := by
  rw [FailsAt, FailsAt, List.getElem?_append_left h, List.take_append_of_le_length (by omega)]

/-- A run fails exactly when one of its tokens does. -/
theorem runTokens_error_iff {source : ParameterSource} {tokens : List Token} {error : RuleError} :
    runTokens source 0 tokens [] = .error error ↔ ∃ index, FailsAt source tokens index error := by
  induction tokens using List.reverseRecOn with
  | nil =>
    constructor
    · intro h
      cases h
    · rintro ⟨index, h⟩
      exact absurd h.lt_length (Nat.not_lt_zero index)
  | append_singleton tokens last ih =>
    rw [runTokens_append, bind_eq_error_iff, ih]
    simp only [runTokens_singleton, Nat.zero_add]
    constructor
    · rintro (⟨index, h⟩ | ⟨stack, hstack, hlast⟩)
      · exact ⟨index, (failsAt_append_iff h.lt_length).mpr h⟩
      · exact ⟨tokens.length, last, stack, by simp, by simpa using hstack, hlast⟩
    · rintro ⟨index, h⟩
      by_cases hindex : index < tokens.length
      · exact Or.inl ⟨index, (failsAt_append_iff hindex).mp h⟩
      · have hbound := h.lt_length
        rw [List.length_append, List.length_singleton] at hbound
        obtain rfl : index = tokens.length := by omega
        obtain ⟨token, stack, htoken, hstack, hstep⟩ := h
        simp only [List.getElem?_concat_length, Option.some.injEq] at htoken
        subst htoken
        rw [List.take_left] at hstack
        exact Or.inr ⟨stack, hstack, hstep⟩

/-- Where all tokens have their operands, a token fails for its own reasons. -/
theorem FailsAt.exists_apply {source : ParameterSource} {tokens : List Token} {index : Nat}
    {error : RuleError} (h : FailsAt source tokens index error) (hsupplied : Supplied tokens) :
    ∃ token ∈ tokens, ∃ operands, token.apply source index operands = .error error := by
  obtain ⟨token, stack, htoken, hstack, hstep⟩ := h
  obtain ⟨hbound, rfl⟩ := List.getElem?_eq_some_iff.mp htoken
  have hsplit : tokens = tokens.take index ++ tokens[index] :: tokens.drop (index + 1) := by
    rw [List.getElem_cons_drop, List.take_append_drop]
  have harity := hsupplied _ _ _ hsplit
  rw [← (supplied_of_runTokens hstack).2] at harity
  rw [step_eq, dif_pos harity, bind_eq_error_iff] at hstep
  rcases hstep with happly | ⟨value, -, hvalue⟩
  · exact ⟨tokens[index], List.getElem_mem hbound, _, happly⟩
  · cases hvalue

/-- Where all tokens have their operands, no failure is one of structure. -/
theorem FailsAt.ne_unstructured {source : ParameterSource} {tokens : List Token} {index : Nat}
    {error : RuleError} (h : FailsAt source tokens index error) (hsupplied : Supplied tokens)
    (position : Nat) (fault : StructureFault) : error ≠ .unstructured position fault := by
  rintro rfl
  obtain ⟨token, -, operands, happly⟩ := h.exists_apply hsupplied
  rcases Token.apply_error_cases happly with ⟨_, _, _, _, h⟩ | ⟨_, _, _, h⟩ | ⟨_, _, _, _, _, h⟩ |
    ⟨_, h⟩ <;> cases h

/-! ## Values of postfix lists -/

/-- A list has a value when its run leaves that value alone. -/
theorem evaluateTokens_ok_iff {source : ParameterSource} {tokens : List Token} {value : Decimal} :
    evaluateTokens source tokens = .ok value ↔ runTokens source 0 tokens [] = .ok [value] := by
  rw [evaluateTokens, bind_eq_ok_iff]
  constructor
  · rintro ⟨stack, hrun, hvalue⟩
    rcases stack with _ | ⟨first, _ | ⟨second, rest⟩⟩
    · cases hvalue
    · cases hvalue
      exact hrun
    · cases hvalue
  · intro h
    exact ⟨[value], h, rfl⟩

theorem evaluateTokens_of_run_error {source : ParameterSource} {tokens : List Token}
    {error : RuleError} (h : runTokens source 0 tokens [] = .error error) :
    evaluateTokens source tokens = .error error := by
  rw [evaluateTokens, h]
  rfl

/-- The value of the post-order of a tree is that of the tree, and so is its error. -/
theorem evaluateTokens_postorder (source : ParameterSource) (tree : Tree) :
    evaluateTokens source tree.postorder = tree.evaluate source 0 := by
  have hrun := runTokens_postorder source tree 0 [] []
  rw [List.append_nil] at hrun
  rw [evaluateTokens, hrun, bind_assoc]
  show tree.evaluate source 0 >>= pure = _
  rw [bind_pure]

/-- A list that has a value is the post-order of a tree. -/
theorem exists_tree_of_evaluateTokens {source : ParameterSource} {tokens : List Token}
    {value : Decimal} (h : evaluateTokens source tokens = .ok value) :
    ∃ tree : Tree, tree.postorder = tokens := by
  obtain ⟨hsupplied, hcount⟩ := supplied_of_runTokens (evaluateTokens_ok_iff.mp h)
  exact (exists_tree_iff tokens).mpr ⟨hsupplied, hcount.symm⟩

/-- The evaluation of a post-order fails exactly when one of its tokens does. -/
theorem evaluateTokens_postorder_error_iff {source : ParameterSource} {tree : Tree}
    {error : RuleError} :
    evaluateTokens source tree.postorder = .error error ↔
      ∃ index, FailsAt source tree.postorder index error := by
  rw [← runTokens_error_iff]
  have hrun := runTokens_postorder source tree 0 [] []
  rw [List.append_nil] at hrun
  rw [evaluateTokens_postorder, hrun, bind_eq_error_iff]
  constructor
  · exact Or.inl
  · rintro (h | ⟨value, -, h⟩)
    · exact h
    · cases h

/-! ## Lists that are no post-order -/

/-- The first place at which a list shows to be no post-order: the first token that lacks
operands, or else the end. -/
inductive FirstFlaw (tokens : List Token) : Nat → StructureFault → Prop where
  | lacking (before : List Token) (token : Token) (after : List Token)
      (split : tokens = before ++ token :: after) (supplied : Supplied before)
      (lacking : valuesAfter before < token.arity) :
      FirstFlaw tokens before.length (.missingOperands token token.arity (valuesAfter before))
  | noValue (supplied : Supplied tokens) (count : valuesAfter tokens = 0) :
      FirstFlaw tokens tokens.length .noValue
  | valuesLeft (supplied : Supplied tokens) (count : 1 < valuesAfter tokens) :
      FirstFlaw tokens tokens.length (.valuesLeft (valuesAfter tokens))

theorem exists_firstFlaw {tokens : List Token} (h : ∀ tree : Tree, tree.postorder ≠ tokens) :
    ∃ index fault, FirstFlaw tokens index fault := by
  rcases supplied_or_lacking tokens with hsupplied | ⟨before, token, after, hsplit, hbefore, hlack⟩
  · have hcount : valuesAfter tokens ≠ 1 := by
      intro hone
      obtain ⟨tree, htree⟩ := (exists_tree_iff tokens).mpr ⟨hsupplied, hone⟩
      exact h tree htree
    rcases Nat.lt_or_gt_of_ne hcount with hzero | hmany
    · exact ⟨_, _, .noValue hsupplied (by omega)⟩
    · exact ⟨_, _, .valuesLeft hsupplied hmany⟩
  · exact ⟨_, _, .lacking before token after hsplit hbefore hlack⟩

/-- Up to its first flaw a list is supplied. -/
theorem FirstFlaw.exists_supplied {tokens : List Token} {index : Nat} {fault : StructureFault}
    (h : FirstFlaw tokens index fault) :
    ∃ before after, tokens = before ++ after ∧ before.length = index ∧ Supplied before := by
  cases h with
  | lacking before token after split supplied lacking =>
    exact ⟨before, token :: after, split, rfl, supplied⟩
  | noValue supplied count => exact ⟨tokens, [], by rw [List.append_nil], rfl, supplied⟩
  | valuesLeft supplied count => exact ⟨tokens, [], by rw [List.append_nil], rfl, supplied⟩

/-- A run that fails nowhere before the first flaw fails there. -/
theorem FirstFlaw.evaluateTokens_eq {source : ParameterSource} {tokens : List Token}
    {index : Nat} {fault : StructureFault} {stack : List Decimal}
    (h : FirstFlaw tokens index fault)
    (hrun : runTokens source 0 (tokens.take index) [] = .ok stack) :
    evaluateTokens source tokens = .error (.unstructured index fault) := by
  -- Up to the flaw the stack is as high as counting says, which is what the fault reports.
  have hlength := (supplied_of_runTokens hrun).2
  cases h with
  | lacking before token after split supplied lacking =>
    rw [split, List.take_left] at hrun hlength
    apply evaluateTokens_of_run_error
    rw [split, runTokens_append, hrun]
    show step source (0 + before.length) token stack >>= _ = _
    rw [step_of_lacking source _ (by omega), Nat.zero_add, hlength]
    rfl
  | noValue supplied count =>
    rw [List.take_length] at hrun hlength
    rw [count, List.length_eq_zero_iff] at hlength
    rw [evaluateTokens, hrun, hlength]
    rfl
  | valuesLeft supplied count =>
    rw [List.take_length] at hrun hlength
    rw [evaluateTokens, hrun, ← hlength]
    rcases stack with _ | ⟨first, _ | ⟨second, rest⟩⟩
    · rw [← hlength] at count
      contradiction
    · rw [← hlength] at count
      exact absurd count (Nat.lt_irrefl 1)
    · rfl

/-- The plus sign lacks an operand, so that the name after it is not looked up. -/
example : evaluateTokens (fun _ => none)
    [.number "1", .operator .negate, .operator (.between .add), .parameter "x"] =
      .error (.unstructured 2 (.missingOperands (.operator (.between .add)) 2 1)) := by
  rfl

/-- **The stack machine means what the trees mean.** A list has a value exactly when it is the
post-order of one tree, with that value. A post-order fails as its tree does, with the error of
its first token that fails. Any other list fails at the first place where it shows to be none,
if no token before that place fails, and otherwise as that token does, which is then no failure
of structure. Each token takes its operands from the top of the stack, where they are. -/
theorem evaluateTokens_tree_semantics (source : ParameterSource) (tokens : List Token) :
    (∀ value, evaluateTokens source tokens = .ok value ↔
      ∃ tree : Tree, (∀ other : Tree, other.postorder = tokens ↔ other = tree) ∧
        tree.evaluate source 0 = .ok value) ∧
    (∀ tree : Tree, tree.postorder = tokens → ∀ error,
      (evaluateTokens source tokens = .error error ↔ tree.evaluate source 0 = .error error) ∧
      (evaluateTokens source tokens = .error error ↔
        ∃ index, FailsAt source tokens index error)) ∧
    ((∀ tree : Tree, tree.postorder ≠ tokens) →
      ∃ index fault, FirstFlaw tokens index fault ∧
        ((∀ earlier < index, ∀ error, ¬ FailsAt source tokens earlier error) →
          evaluateTokens source tokens = .error (.unstructured index fault)) ∧
        ∀ earlier < index, ∀ error, FailsAt source tokens earlier error →
          evaluateTokens source tokens = .error error ∧
          ∀ position flaw, error ≠ .unstructured position flaw) ∧
    ∀ index token stack, step source index token stack =
      if h : token.arity ≤ stack.length then do
        let value ← token.apply source index (topOperands stack h)
        return value :: stack.drop token.arity
      else .error (.unstructured index (.missingOperands token token.arity stack.length)) := by
  refine ⟨?_, ?_, ?_, step_eq source⟩
  · intro value
    constructor
    · intro h
      obtain ⟨tree, rfl⟩ := exists_tree_of_evaluateTokens h
      exact ⟨tree, fun other => Tree.postorder_injective.eq_iff,
        by rw [← evaluateTokens_postorder, h]⟩
    · rintro ⟨tree, htree, hvalue⟩
      rw [← (htree tree).mpr rfl, evaluateTokens_postorder, hvalue]
  · rintro tree rfl error
    exact ⟨by rw [evaluateTokens_postorder], evaluateTokens_postorder_error_iff⟩
  · intro hnone
    obtain ⟨index, fault, hflaw⟩ := exists_firstFlaw hnone
    obtain ⟨before, after, hsplit, rfl, hsupplied⟩ := hflaw.exists_supplied
    refine ⟨before.length, fault, hflaw, ?_, ?_⟩
    · intro hearlier
      cases hrun : runTokens source 0 before [] with
      | ok stack =>
        apply hflaw.evaluateTokens_eq
        rw [hsplit, List.take_left, hrun]
      | error error =>
        obtain ⟨index, hfails⟩ := runTokens_error_iff.mp hrun
        refine absurd ?_ (hearlier index hfails.lt_length error)
        rw [hsplit]
        exact (failsAt_append_iff hfails.lt_length).mpr hfails
    · intro earlier hbound error hfails
      refine ⟨evaluateTokens_of_run_error (runTokens_error_iff.mpr ⟨earlier, hfails⟩), ?_⟩
      rw [hsplit, failsAt_append_iff hbound] at hfails
      exact hfails.ne_unstructured hsupplied

end Tariff
