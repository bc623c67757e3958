/-
# Operators and built-in functions

The operations that a formula can name. Each of them, operator or function, takes one, two or
three operands; `Operation` sorts them by that number.
-/

namespace Tariff

/-! ## Operators -/

/-- The operators that stand between their operands. -/
inductive InfixOperator where
  | add
  | subtract
  | multiply
  | divide
  | power
  deriving DecidableEq

/-- All operators: those between two operands, and the minus sign before a single one. -/
inductive Operator where
  | between (op : InfixOperator)
  | negate
  deriving DecidableEq

namespace InfixOperator

/-- The operator that a character writes. -/
def ofChar? : Char → Option InfixOperator
  | '+' => some .add
  | '-' => some .subtract
  | '*' => some .multiply
  | '/' => some .divide
  | '^' => some .power
  | _ => none

/-- The character of the operator. -/
def char : InfixOperator → Char
  | .add => '+'
  | .subtract => '-'
  | .multiply => '*'
  | .divide => '/'
  | .power => '^'

end InfixOperator

namespace Operator

/-- All operators, in the order in which they are listed. -/
def all : List Operator :=
  [.between .add, .between .subtract, .between .multiply, .between .divide, .between .power, .negate]

/-- How the operator is displayed. -/
def symbol : Operator → String
  | .between op => op.char.toString
  | .negate => "neg"

/-- The operator's name. -/
def name : Operator → String
  | .between .add => "add"
  | .between .subtract => "subtract"
  | .between .multiply => "multiply"
  | .between .divide => "divide"
  | .between .power => "power"
  | .negate => "negate"

/-- Operators of higher precedence bind their operands first. The minus sign stands between
multiplication and power: `-a ^ b` negates the power, `-a * b` multiplies the negation. -/
def precedence : Operator → Nat
  | .between .add | .between .subtract => 1
  | .between .multiply | .between .divide => 2
  | .negate => 3
  | .between .power => 4

/-- Whether of several operators in a row the last one binds first. -/
def isRightAssociative : Operator → Bool
  | .between .power | .negate => true
  | _ => false

end Operator

/-! ## Built-in functions -/

/-- The functions that formulas can call. -/
inductive Builtin where
  | min
  | max
  | abs
  | round
  | floor
  | ceiling
  | sqrt
  | choose
  deriving DecidableEq

namespace Builtin

/-- All functions, in the order in which they are listed. -/
def all : List Builtin := [.min, .max, .abs, .round, .floor, .ceiling, .sqrt, .choose]

/-- The function's name. -/
def name : Builtin → String
  | .min => "min"
  | .max => "max"
  | .abs => "abs"
  | .round => "round"
  | .floor => "floor"
  | .ceiling => "ceiling"
  | .sqrt => "sqrt"
  | .choose => "if"

/-- The function of a name, in whatever case its letters are. -/
def ofName? (name : String) : Option Builtin := all.find? fun f => f.name == name.toLower

theorem ofName?_eq_some_iff {name : String} {f : Builtin} :
    ofName? name = some f ↔ name.toLower = f.name := by
  constructor
  · intro h
    unfold ofName? at h
    have hsame := List.find?_some h
    exact (beq_iff_eq.mp hsame).symm
  · intro h
    rw [ofName?, h]
    cases f <;> rfl

end Builtin

/-! ## Operations by the number of their operands -/

/-- Operations on one operand. -/
inductive UnaryOperation where
  | negate
  | abs
  | round
  | floor
  | ceiling
  | sqrt
  deriving DecidableEq

/-- Operations on two operands. -/
inductive BinaryOperation where
  | arithmetic (op : InfixOperator)
  | min
  | max
  deriving DecidableEq

/-- An operation of any number of operands. The only one with three is the choice between two
values by the sign of a condition. -/
inductive Operation where
  | unary (op : UnaryOperation)
  | binary (op : BinaryOperation)
  | choice
  deriving DecidableEq

/-- The number of operands. -/
def Operation.arity : Operation → Nat
  | .unary _ => 1
  | .binary _ => 2
  | .choice => 3

/-- What an operator does. -/
def Operator.operation : Operator → Operation
  | .between op => .binary (.arithmetic op)
  | .negate => .unary .negate

/-- What a function does. -/
def Builtin.operation : Builtin → Operation
  | .min => .binary .min
  | .max => .binary .max
  | .abs => .unary .abs
  | .round => .unary .round
  | .floor => .unary .floor
  | .ceiling => .unary .ceiling
  | .sqrt => .unary .sqrt
  | .choose => .choice

/-- The number of an operator's operands. -/
def Operator.arity (op : Operator) : Nat := op.operation.arity

/-- The number of a function's arguments. -/
def Builtin.arity (f : Builtin) : Nat := f.operation.arity

/-- How a function is displayed: its name and the number of its arguments. -/
def Builtin.symbol (f : Builtin) : String := s!"{f.name}/{f.arity}"

end Tariff
