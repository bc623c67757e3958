/-
# Faults of a formula's text

Why a text is not a formula, and at which byte of it that shows.
-/
import Tariff.Decimal.Text
import Tariff.Formula.Operator

namespace Tariff

/-- What is wrong with the text of a formula, or with a literal in a postfix list. -/
inductive SyntaxCause where
  | blank
  | malformedNumber (text : String)
  | unknownCharacter (c : Char)
  | missingOperator (found : String)
  | missingOperatorBeforeBracket
  | missingLeftOperand (op : InfixOperator)
  | missingOperandBeforeClosing
  | missingArgument
  | incomplete
  | unknownFunction (name : String)
  | wrongArgumentCount (f : Builtin) (supplied : Nat)
  | unmatchedClosing
  | unmatchedOpening
  | strayComma
  | unreadableNumber (text : String) (fault : NumeralFault)
  deriving DecidableEq

/-- The wording of a cause. -/
def SyntaxCause.message : SyntaxCause → String
  | .blank => "表达式不能为空"
  | .malformedNumber text => s!"无效的数字字面量 '{text}'"
  | .unknownCharacter c => s!"无法识别的字符 '{c}'"
  | .missingOperator found => s!"缺少操作符: '{found}'"
  | .missingOperatorBeforeBracket => "括号前缺少操作符"
  | .missingLeftOperand op => s!"操作符 '{op.char}' 缺少左操作数"
  | .missingOperandBeforeClosing => "右括号前缺少操作数"
  | .missingArgument => "逗号前缺少参数"
  | .incomplete => "表达式不完整"
  | .unknownFunction name => s!"未知函数 '{name}'"
  | .wrongArgumentCount f supplied =>
    s!"函数 '{f.name}' 需要 {f.arity} 个参数，实际 {supplied} 个"
  | .unmatchedClosing => "括号不匹配: 多余的 ')'"
  | .unmatchedOpening => "括号不匹配: 缺少 ')'"
  | .strayComma => "逗号只能出现在函数参数中"
  | .unreadableNumber text fault => s!"无效的数字字面量 '{text}': {fault.message}"

/-- A cause and its place: a byte offset in the text of a formula. -/
structure SyntaxFault where
  position : Nat
  cause : SyntaxCause
  deriving DecidableEq

end Tariff
