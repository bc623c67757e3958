/-
# Reading formulas

Lexemes are read from left to right, in one of two situations: an operand is due, or an
operand has just been read. What has been read and not yet been put together waits in a
`Level`, one for the whole text and one for each open bracket. A level has a place for the
left side of a sum, one for the left side of a product, and a chain of minus signs and bases
of powers, which is how tightly the operators bind: a chain is closed by the next product or
sum, a product by the next product or sum, and a sum by the next sum.
-/
import Tariff.Formula.Lexeme
import Tariff.Formula.Token

namespace Tariff

/-! ## What waits for its right operand -/

/-- A minus sign before, or a base with its power sign left of the operand that is due. -/
inductive Link where
  | negated
  | base (tree : Tree)
  deriving DecidableEq

/-- The unfinished operations up to the nearest open bracket, the innermost link first. -/
structure Level where
  sum : Option (Tree × InfixOperator)
  product : Option (Tree × InfixOperator)
  chain : List Link
  deriving DecidableEq

namespace Level

/-- Nothing waits. -/
def empty : Level := ⟨none, none, []⟩

/-- Closes a chain: minus signs and bases take the operand from the inside outwards. -/
def closeChain : List Link → Tree → Tree
  | [], tree => tree
  | .negated :: links, tree => closeChain links (.unary .negate tree)
  | .base base :: links, tree => closeChain links (.binary (.arithmetic .power) base tree)

/-- Gives a waiting left side its right operand. -/
def join : Option (Tree × InfixOperator) → Tree → Tree
  | none, tree => tree
  | some (left, op), tree => .binary (.arithmetic op) left tree

/-- The factor that ends with `operand`. -/
def factor (level : Level) (operand : Tree) : Tree := closeChain level.chain operand

/-- The product that ends with `operand`. -/
def term (level : Level) (operand : Tree) : Tree := join level.product (level.factor operand)

/-- The sum that ends with `operand`: all that the level holds. -/
def whole (level : Level) (operand : Tree) : Tree := join level.sum (level.term operand)

/-- What waits once an operator follows `operand`. -/
def push (level : Level) (operand : Tree) : InfixOperator → Level
  | .power => { level with chain := .base operand :: level.chain }
  | .multiply => { level with product := some (level.term operand, .multiply), chain := [] }
  | .divide => { level with product := some (level.term operand, .divide), chain := [] }
  | .add => ⟨some (level.whole operand, .add), none, []⟩
  | .subtract => ⟨some (level.whole operand, .subtract), none, []⟩

/-- What waits once a minus sign stands where an operand is due. -/
def negate (level : Level) : Level := { level with chain := .negated :: level.chain }

end Level

/-- An open bracket: it groups, or it opens the arguments of a call, of which those already
read are listed last one first. -/
inductive Bracket where
  | group
  | call (f : Builtin) (arguments : List Tree)
  deriving DecidableEq

/-- An open bracket, where it stands (for a call, where its name stands), and what waits around
it. -/
structure Enclosure where
  position : Nat
  bracket : Bracket
  outer : Level
  deriving DecidableEq

/-! ## The two situations -/

namespace Formula

mutual

/-- Reads on where an operand is due. A plus sign before an operand means nothing. -/
def readOperand (length : Nat) (enclosures : List Enclosure) (level : Level) :
    List PlacedLexeme → Except SyntaxFault Tree
  | [] => .error ⟨length, .incomplete⟩
  | ⟨_, .number text⟩ :: rest => readOn length enclosures level (.number text) rest
  | ⟨position, .name name⟩ :: ⟨_, .opening⟩ :: rest =>
    match Builtin.ofName? name with
    | some f => readOperand length (⟨position, .call f [], level⟩ :: enclosures) .empty rest
    | none => .error ⟨position, .unknownFunction name⟩
  | ⟨_, .name name⟩ :: rest => readOn length enclosures level (.parameter name) rest
  | ⟨_, .operator .subtract⟩ :: rest => readOperand length enclosures level.negate rest
  | ⟨_, .operator .add⟩ :: rest => readOperand length enclosures level rest
  | ⟨position, .operator op⟩ :: _ => .error ⟨position, .missingLeftOperand op⟩
  | ⟨position, .opening⟩ :: rest =>
    readOperand length (⟨position, .group, level⟩ :: enclosures) .empty rest
  | ⟨position, .closing⟩ :: _ => .error ⟨position, .missingOperandBeforeClosing⟩
  | ⟨position, .comma⟩ :: _ => .error ⟨position, .missingArgument⟩

/-- Reads on after `operand`. The number of a call's arguments is checked where its bracket is
closed. -/
def readOn (length : Nat) (enclosures : List Enclosure) (level : Level) (operand : Tree) :
    List PlacedLexeme → Except SyntaxFault Tree
  | [] =>
    match enclosures with
    | [] => .ok (level.whole operand)
    | innermost :: _ => .error ⟨innermost.position, .unmatchedOpening⟩
  | ⟨position, .number text⟩ :: _ => .error ⟨position, .missingOperator text⟩
  | ⟨position, .name name⟩ :: _ => .error ⟨position, .missingOperator name⟩
  | ⟨_, .operator op⟩ :: rest => readOperand length enclosures (level.push operand op) rest
  | ⟨position, .opening⟩ :: _ => .error ⟨position, .missingOperatorBeforeBracket⟩
  | ⟨position, .closing⟩ :: rest =>
    match enclosures with
    | [] => .error ⟨position, .unmatchedClosing⟩
    | ⟨_, .group, outer⟩ :: others => readOn length others outer (level.whole operand) rest
    | ⟨start, .call f arguments, outer⟩ :: others =>
      match Tree.call? f (level.whole operand :: arguments).reverse with
      | some call => readOn length others outer call rest
      | none => .error ⟨start, .wrongArgumentCount f (arguments.length + 1)⟩
  | ⟨position, .comma⟩ :: rest =>
    match enclosures with
    | ⟨start, .call f arguments, outer⟩ :: others =>
      let enclosure := ⟨start, .call f (level.whole operand :: arguments), outer⟩
      readOperand length (enclosure :: others) .empty rest
    | _ => .error ⟨position, .strayComma⟩

end

end Formula

/-! ## Formulas -/

/-- A formula: its text and the tree that the text stands for. -/
structure Formula where
  source : String
  tree : Tree
  deriving DecidableEq

namespace Formula

/-- The postfix form. -/
def tokens (formula : Formula) : List Token := formula.tree.postorder

/-- The parameters that the formula refers to, each once and in ascending order. -/
def parameters (formula : Formula) : List String := parametersOf formula.tokens

/-- Reads a formula. The whole text is split into lexemes before any of them is looked at. -/
def parse (text : String) : Except SyntaxFault Formula :=
  if isBlankText text then
    .error ⟨0, .blank⟩
  else do
    let lexemes ← Lexeme.ofText text
    let tree ← readOperand text.utf8ByteSize [] .empty lexemes
    return ⟨text, tree⟩

end Formula

end Tariff
