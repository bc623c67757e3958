/-
# Tokens and trees

A formula is a tree of operations over literals and parameters. Its postfix form lists the
operands before the operation that takes them, so that it can be evaluated from left to right
with a stack.
-/
import Tariff.Formula.Operator

namespace Tariff

/-- An entry of a postfix list. Literals keep the text that they were written with. -/
inductive Token where
  | number (text : String)
  | parameter (name : String)
  | operator (op : Operator)
  | function (f : Builtin)
  deriving DecidableEq

/-- How a token is displayed. -/
def Token.text : Token → String
  | .number text => text
  | .parameter name => name
  | .operator op => op.symbol
  | .function f => f.symbol

/-- The token of an operation on one operand. -/
def UnaryOperation.token : UnaryOperation → Token
  | .negate => .operator .negate
  | .abs => .function .abs
  | .round => .function .round
  | .floor => .function .floor
  | .ceiling => .function .ceiling
  | .sqrt => .function .sqrt

/-- The token of an operation on two operands. -/
def BinaryOperation.token : BinaryOperation → Token
  | .arithmetic op => .operator (.between op)
  | .min => .function .min
  | .max => .function .max

/-- The token of an operation. -/
def Operation.token : Operation → Token
  | .unary op => op.token
  | .binary op => op.token
  | .choice => .function .choose

/-- The token of what an operator does is the operator. -/
theorem Operator.token_operation (op : Operator) : op.operation.token = .operator op := by
  cases op <;> rfl

/-- The token of what a function does is the function. -/
theorem Builtin.token_operation (f : Builtin) : f.operation.token = .function f := by
  cases f <;> rfl

/-- The tree of a formula. -/
inductive Tree where
  | number (text : String)
  | parameter (name : String)
  | unary (op : UnaryOperation) (operand : Tree)
  | binary (op : BinaryOperation) (left right : Tree)
  | choice (condition positive otherwise : Tree)
  deriving DecidableEq

namespace Tree

/-- The postfix form: operands from left to right, then the operation. -/
def postorder : Tree → List Token
  | .number text => [.number text]
  | .parameter name => [.parameter name]
  | .unary op operand => operand.postorder ++ [op.token]
  | .binary op left right => left.postorder ++ right.postorder ++ [op.token]
  | .choice condition positive otherwise =>
    condition.postorder ++ positive.postorder ++ otherwise.postorder ++ [.function .choose]

/-- The call of a function, if the number of arguments is the function's. -/
def call? (f : Builtin) (arguments : List Tree) : Option Tree :=
  match f.operation, arguments with
  | .unary op, [operand] => some (.unary op operand)
  | .binary op, [left, right] => some (.binary op left right)
  | .choice, [condition, positive, otherwise] => some (.choice condition positive otherwise)
  | _, _ => none

/-- A call takes exactly as many arguments as its function. -/
theorem call?_isSome_iff (f : Builtin) (arguments : List Tree) :
    (call? f arguments).isSome = true ↔ arguments.length = f.arity := by
  rcases arguments with _ | ⟨a, _ | ⟨b, _ | ⟨c, _ | ⟨d, rest⟩⟩⟩⟩ <;> cases f <;>
    simp [call?, Builtin.arity, Builtin.operation, Operation.arity]

/-- The post-order of a call: that of its arguments, then the function. -/
theorem postorder_of_call? {f : Builtin} {arguments : List Tree} {call : Tree}
    (h : call? f arguments = some call) :
    call.postorder = arguments.flatMap postorder ++ [.function f] := by
  rw [← f.token_operation]
  unfold call? at h
  split at h
  next op operand hop =>
    cases h
    simp [postorder, hop, Operation.token]
  next op left right hop =>
    cases h
    simp [postorder, hop, Operation.token]
  next condition positive otherwise hop =>
    cases h
    simp [postorder, hop, Operation.token]
  next => contradiction

end Tree

/-- The parameters that a postfix list refers to, each once and in ascending order. -/
def parametersOf (tokens : List Token) : List String :=
  let names := tokens.filterMap fun
    | .parameter name => some name
    | _ => none
  names.eraseDups.mergeSort fun a b => decide (a ≤ b)

theorem mem_parametersOf {name : String} {tokens : List Token} :
    name ∈ parametersOf tokens ↔ .parameter name ∈ tokens := by
  rw [parametersOf, List.mem_mergeSort, List.mem_eraseDups, List.mem_filterMap]
  constructor
  · rintro ⟨token, htoken, hname⟩
    split at hname
    · cases hname
      exact htoken
    · contradiction
  · intro h
    exact ⟨.parameter name, h, rfl⟩

end Tariff
