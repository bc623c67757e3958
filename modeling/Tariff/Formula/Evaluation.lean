/-
# Evaluation

A postfix list is evaluated from left to right with a stack of decimals. Lists need not come
from a formula; one that is not the postfix form of a single tree is an error at the first
token that lacks operands, or at the end. Trees are evaluated directly as well: operands from
left to right, both branches of a choice included.
-/
import Tariff.Decimal.Arithmetic
import Tariff.Decimal.Division
import Tariff.Formula.Reader
import Tariff.Parameter.Bag

namespace Tariff

/-! ## Operations -/

/-- The result of a computation on doubles, as a double. -/
def FloatComputation.run : FloatComputation → Float
  | .power base exponent => Float.pow base.toFloat exponent.toFloat
  | .squareRoot operand => operand.toFloat.sqrt

/-- The result of a computation on doubles, as a decimal. -/
def FloatComputation.evaluate (computation : FloatComputation) : Except ArithmeticFault Decimal :=
  let result := computation.run
  if result.isFinite then
    match Decimal.ofFloat? result with
    | some value => .ok value
    | none => .error (.outOfRange computation)
  else
    .error (.notFinite computation)

/-- The result of an arithmetic operator. -/
def InfixOperator.apply (op : InfixOperator) (left right : Decimal) :
    Except ArithmeticFault Decimal :=
  let checked := fun (result : Option Decimal) =>
    match result with
    | some value => .ok value
    | none => .error (.overflow op left right)
  match op with
  | .add => checked (left.add? right)
  | .subtract => checked (left.sub? right)
  | .multiply => checked (left.mul? right)
  | .divide =>
    if right.isZero then .error (.divisionByZero left right) else checked (left.div? right)
  | .power => (FloatComputation.power left right).evaluate

/-- The result of an operation on one operand. -/
def UnaryOperation.apply (op : UnaryOperation) (operand : Decimal) :
    Except ArithmeticFault Decimal :=
  match op with
  | .negate => .ok operand.neg
  | .abs => .ok operand.abs
  | .round => .ok operand.round
  | .floor => .ok operand.floor
  | .ceiling => .ok operand.ceiling
  | .sqrt =>
    if operand.isNegative then .error (.negativeRoot operand)
    else (FloatComputation.squareRoot operand).evaluate

/-- The result of an operation on two operands. -/
def BinaryOperation.apply (op : BinaryOperation) (left right : Decimal) :
    Except ArithmeticFault Decimal :=
  match op with
  | .arithmetic op => op.apply left right
  | .min => .ok (left.min right)
  | .max => .ok (left.max right)

/-- Of two values, the first one if the condition is greater than zero. -/
def chooseBy (condition positive otherwise : Decimal) : Decimal :=
  if condition.isPositive then positive else otherwise

/-! ## Literals -/

/-- The value of a literal, which is the token of the given index. -/
def literal (index : Nat) (text : String) : Except RuleError Decimal :=
  match Decimal.ofText text with
  | .ok value => .ok value
  | .error fault => .error (.malformed ⟨index, .unreadableNumber text fault⟩)

/-! ## Postfix lists -/

/-- Lets an operation take its operands off the stack, whose top is the head of the list, and
put its result there. -/
def perform (index : Nat) (token : Token) (operation : Operation) (stack : List Decimal) :
    Except RuleError (List Decimal) :=
  match operation, stack with
  | .unary op, operand :: rest => do
    let value ← (op.apply operand).mapError .arithmetic
    return value :: rest
  | .binary op, right :: left :: rest => do
    let value ← (op.apply left right).mapError .arithmetic
    return value :: rest
  | .choice, otherwise :: positive :: condition :: rest =>
    .ok (chooseBy condition positive otherwise :: rest)
  | operation, stack =>
    .error (.unstructured index (.missingOperands token operation.arity stack.length))

/-- What a token does to the stack. -/
def step (source : ParameterSource) (index : Nat) (token : Token) (stack : List Decimal) :
    Except RuleError (List Decimal) :=
  match token with
  | .number text => do
    let value ← literal index text
    return value :: stack
  | .parameter name => do
    let value ← resolve source name
    return value :: stack
  | .operator op => perform index token op.operation stack
  | .function f => perform index token f.operation stack

/-- What a postfix list does to the stack, where `index` counts the tokens before it. -/
def runTokens (source : ParameterSource) :
    (index : Nat) → List Token → List Decimal → Except RuleError (List Decimal)
  | _, [], stack => .ok stack
  | index, token :: tokens, stack => do
    let next ← step source index token stack
    runTokens source (index + 1) tokens next

/-- The value of a postfix list: the only one that is left on the stack. -/
def evaluateTokens (source : ParameterSource) (tokens : List Token) : Except RuleError Decimal := do
  match ← runTokens source 0 tokens [] with
  | [value] => return value
  | [] => throw (.unstructured tokens.length .noValue)
  | stack => throw (.unstructured tokens.length (.valuesLeft stack.length))

/-- The value of a formula. -/
def Formula.evaluate (formula : Formula) (source : ParameterSource) : Except RuleError Decimal :=
  evaluateTokens source formula.tokens

/-! ## Trees -/

/-- The value of a tree whose first leaf is the token of the given index. -/
def Tree.evaluate (source : ParameterSource) (index : Nat) : Tree → Except RuleError Decimal
  | .number text => literal index text
  | .parameter name => resolve source name
  | .unary op operand => do
    let value ← operand.evaluate source index
    (op.apply value).mapError .arithmetic
  | .binary op left right => do
    let first ← left.evaluate source index
    let second ← right.evaluate source (index + left.postorder.length)
    (op.apply first second).mapError .arithmetic
  | .choice condition positive otherwise => do
    let first ← condition.evaluate source index
    let second ← positive.evaluate source (index + condition.postorder.length)
    let third ← otherwise.evaluate source
      (index + condition.postorder.length + positive.postorder.length)
    return chooseBy first second third

end Tariff
