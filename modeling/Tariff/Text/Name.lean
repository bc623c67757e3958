/-
# Names and codes

Names of parameters and the letter codes of countries and currencies. Both are ASCII by
definition, so the character classes here are those of ASCII alone.
-/

namespace Tariff

/-- A name begins with an ASCII letter or an underscore. -/
def isNameStart (c : Char) : Bool := c.isAlpha || c == '_'

/-- A name goes on with ASCII letters, digits and underscores. -/
def isNamePart (c : Char) : Bool := c.isAlphanum || c == '_'

/-- Whether a text can name a parameter. -/
def isName (s : String) : Bool :=
  match s.toList with
  | [] => false
  | c :: cs => isNameStart c && cs.all isNamePart

/-- Whether a text consists of exactly `n` ASCII letters. -/
def isLetterCode (n : Nat) (s : String) : Bool :=
  s.toList.length == n && s.toList.all Char.isAlpha

/-- Equality of texts up to the case of ASCII letters. -/
def sameIgnoringCase (a b : String) : Bool := a.toLower == b.toLower

end Tariff
