/-
# Errors

Everything that can go wrong with formulas, parameters, amounts and rules, as causes. The
wording of each cause stands in one place.
-/
import Tariff.Calendar.Date
import Tariff.Formula.Fault
import Tariff.Formula.Token
import Tariff.Json.Fault
import Tariff.Parameter.Value

namespace Tariff

/-! ## Evaluation -/

/-- A computation on doubles. -/
inductive FloatComputation where
  | power (base exponent : Decimal)
  | squareRoot (operand : Decimal)
  deriving DecidableEq

/-- How a message writes the computation. -/
def FloatComputation.text : FloatComputation → String
  | .power base exponent => s!"{base} ^ {exponent}"
  | .squareRoot operand => s!"sqrt({operand})"

/-- Why a computation has no result. -/
inductive ArithmeticFault where
  | overflow (op : InfixOperator) (left right : Decimal)
  | divisionByZero (left right : Decimal)
  | negativeRoot (operand : Decimal)
  | notFinite (computation : FloatComputation)
  | outOfRange (computation : FloatComputation)
  | amountOverflow (left right : Decimal)
  deriving DecidableEq

/-- The wording of a computation's fault: what was computed, and what is wrong. -/
def ArithmeticFault.message : ArithmeticFault → String
  | .overflow op left right => s!"{left} {op.char} {right} - 十进制运算溢出"
  | .divisionByZero left right => s!"{left} / {right} - 除数为零"
  | .negativeRoot operand => s!"sqrt({operand}) - 负数不能开平方"
  | .notFinite computation => s!"{computation.text} - 结果不是有限数"
  | .outOfRange computation => s!"{computation.text} - 结果超出十进制数范围"
  | .amountOverflow left right => s!"+ - 金额溢出: {left} + {right}"

/-- Why a postfix list is not the postfix form of a tree. -/
inductive StructureFault where
  | missingOperands (token : Token) (needed found : Nat)
  | noValue
  | valuesLeft (count : Nat)
  deriving DecidableEq

/-- The wording of a structure fault. -/
def StructureFault.message : StructureFault → String
  | .missingOperands token needed found =>
    s!"'{token.text}' 需要 {needed} 个操作数，栈中只有 {found} 个"
  | .noValue => "求值结束时栈为空"
  | .valuesLeft count => s!"求值结束时栈中剩余 {count} 个值"

/-! ## Rules -/

/-- Why a rule is not well formed, its formulas aside. -/
inductive RuleFlaw where
  | blankId
  | badCountry (code : String)
  | reversedWindow (since till : Date)
  | badParameterName (name : String)
  | repeatedParameter (name : String)
  | badDefault (name : String) (kind : ValueKind)
  | repeatedId
  deriving DecidableEq

/-- The wording of a value that is no number. -/
def conversionMessage (name : String) (kind : ValueKind) : String :=
  s!"参数无法转换为数值: {name} (类型 {kind.name})"

/-- The wording of a flaw. -/
def RuleFlaw.message : RuleFlaw → String
  | .blankId => "规则 ID 不能为空"
  | .badCountry code => s!"无效的国家代码 '{code}'"
  | .reversedWindow since till => s!"生效起始日 {since} 晚于截止日 {till}"
  | .badParameterName name => s!"无效的参数名 '{name}'"
  | .repeatedParameter name => s!"参数 '{name}' 重复声明"
  | .badDefault name kind => s!"参数 '{name}' 的默认值无效: {conversionMessage name kind}"
  | .repeatedId => "规则 ID 重复"

/-- What was being done with a formula of a rule. -/
inductive Phase where
  | parse
  | condition
  | expression
  deriving DecidableEq

/-- How a message names a phase. -/
def Phase.label : Phase → String
  | .parse => "解析"
  | .condition => "条件检查"
  | .expression => "表达式求值"

/-! ## All errors -/

/-- An error of the library. -/
inductive RuleError where
  | malformed (fault : SyntaxFault)
  | unstructured (index : Nat) (fault : StructureFault)
  | parameterMissing (name : String)
  | notNumeric (name : String) (kind : ValueKind)
  | arithmetic (fault : ArithmeticFault)
  | currencyMismatch (expected actual : String)
  | invalidCurrency (value : String)
  | invalidRule (id : String) (flaw : RuleFlaw)
  | ruleFailed (id : String) (phase : Phase) (formula : String) (cause : RuleError)
  | ruleNotFound (id : String)
  | unreadable (fault : JsonFault)
  deriving DecidableEq

namespace RuleError

/-- The wording of an error. -/
def message : RuleError → String
  | .malformed fault => s!"表达式语法错误 (位置 {fault.position}): {fault.cause.message}"
  | .unstructured index fault => s!"后缀表达式结构错误 (第 {index} 个记号): {fault.message}"
  | .parameterMissing name => s!"参数不存在: {name}"
  | .notNumeric name kind => conversionMessage name kind
  | .arithmetic fault => s!"算术错误: {fault.message}"
  | .currencyMismatch expected actual => s!"货币不一致: 期望 {expected}, 实际 {actual}"
  | .invalidCurrency value => s!"无效的货币代码: {value}"
  | .invalidRule id flaw => s!"规则定义无效: {id} - {flaw.message}"
  | .ruleFailed id phase formula cause =>
    s!"规则 {id} {phase.label}失败 (表达式 '{formula}'): {cause.message}"
  | .ruleNotFound id => s!"规则未找到: {id}"
  | .unreadable fault => s!"JSON 序列化错误: {fault.message}"

/-- The error beneath all rules that it went through. -/
def rootCause : RuleError → RuleError
  | .ruleFailed _ _ _ cause => cause.rootCause
  | error => error

/-- The rule that an error names. -/
def ruleId? : RuleError → Option String
  | .ruleFailed id _ _ _ => some id
  | .invalidRule id _ => some id
  | _ => none

end RuleError

end Tariff
