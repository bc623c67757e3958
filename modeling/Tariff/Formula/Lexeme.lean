/-
# Lexemes

The words of a formula's text: literals, names, operators, brackets and commas, with blank
characters between them. Each literal and each name is as long as the text allows, and each
lexeme knows the byte offset at which it starts.
-/
import Tariff.Formula.Fault
import Tariff.Text.Blank
import Tariff.Text.Name

namespace Tariff

/-- A word of a formula's text. -/
inductive Lexeme where
  | number (text : String)
  | name (text : String)
  | operator (op : InfixOperator)
  | opening
  | closing
  | comma
  deriving DecidableEq

/-- A lexeme and the byte offset at which it starts. -/
structure PlacedLexeme where
  position : Nat
  lexeme : Lexeme
  deriving DecidableEq

namespace Lexeme

/-- Digits and points make up literals. -/
def isNumberPart (c : Char) : Bool := c.isDigit || c == '.'

/-- Whether a run of digits and points is a literal: it has a digit, at most one point, and a
value among the decimals. -/
def isNumber (run : List Char) : Bool :=
  run.any Char.isDigit && decide (run.count '.' ≤ 1) && (Decimal.ofText (String.ofList run)).isOk

/-- The lexeme that consists of a single character. -/
def ofChar? : Char → Option Lexeme
  | '(' => some .opening
  | ')' => some .closing
  | ',' => some .comma
  | c => (InfixOperator.ofChar? c).map .operator

/-- Splits a text, of which `position` bytes have been read, into its lexemes. -/
def scan (position : Nat) (cs : List Char) : Except SyntaxFault (List PlacedLexeme) :=
  match cs with
  | [] => .ok []
  | c :: rest =>
    if isBlank c then
      scan (position + c.utf8Size) rest
    else if isNumberPart c then
      let run := c :: rest.takeWhile isNumberPart
      if isNumber run then do
        let others ← scan (position + run.length) (rest.dropWhile isNumberPart)
        return ⟨position, .number (String.ofList run)⟩ :: others
      else
        .error ⟨position, .malformedNumber (String.ofList run)⟩
    else if isNameStart c then do
      let run := c :: rest.takeWhile isNamePart
      let others ← scan (position + run.length) (rest.dropWhile isNamePart)
      return ⟨position, .name (String.ofList run)⟩ :: others
    else
      match ofChar? c with
      | some lexeme => do
        let others ← scan (position + 1) rest
        return ⟨position, lexeme⟩ :: others
      | none => .error ⟨position, .unknownCharacter c⟩
termination_by cs.length
decreasing_by
  all_goals
    have := (List.dropWhile_sublist isNumberPart (l := rest)).length_le
    have := (List.dropWhile_sublist isNamePart (l := rest)).length_le
    simp only [List.length_cons]
    omega

/-- The lexemes of a text. -/
def ofText (text : String) : Except SyntaxFault (List PlacedLexeme) := scan 0 text.toList

end Lexeme

end Tariff
