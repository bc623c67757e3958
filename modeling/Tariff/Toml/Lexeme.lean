/-
# Lexemes of TOML

Blanks, comments, line breaks, strings and keys. Each reader takes a text and yields what it
read together with the rest, or nothing where the text is malformed.
-/
import Tariff.Text.Digits

namespace Tariff

/-- A reader of the beginning of a text. -/
abbrev TomlReader (α : Type) := List Char → Option (α × List Char)

namespace Toml

/-! ## Blanks and comments -/

/-- The blanks within a line. -/
def isSpace (c : Char) : Bool := c == ' ' || c == '\t'

/-- Leaves out blanks at the front. -/
def skipSpaces (cs : List Char) : List Char := cs.dropWhile isSpace

/-- The characters that strings and comments may hold: no control characters but tabs. -/
def isAllowed (c : Char) : Bool := c == '\t' || (decide (32 ≤ c.toNat) && c.toNat != 127)

/-- Takes off a line break. -/
def lineBreak? : List Char → Option (List Char)
  | '\n' :: cs => some cs
  | '\r' :: '\n' :: cs => some cs
  | _ => none

/-- Leaves out blanks, line breaks and comments; `inComment` tells whether the text begins
within a comment. -/
def skipTrivia (inComment : Bool) : List Char → Option (List Char)
  | [] => some []
  | '\n' :: cs => skipTrivia false cs
  | '\r' :: '\n' :: cs => skipTrivia false cs
  | c :: cs =>
    if inComment then if isAllowed c then skipTrivia true cs else none
    else if isSpace c then skipTrivia false cs
    else if c == '#' then skipTrivia true cs
    else some (c :: cs)

/-- Takes off the end of a line: blanks, a comment, and a line break or the end of the text. -/
def endLine? (cs : List Char) : Option (List Char) :=
  let rest := match skipSpaces cs with
    | '#' :: comment => comment.dropWhile isAllowed
    | rest => rest
  match rest with
  | [] => some []
  | rest => lineBreak? rest

/-! ## Strings -/

/-- The character that a short escape stands for. -/
def shortEscape? : Char → Option Char
  | '"' => some '"'
  | '\\' => some '\\'
  | 'b' => some '\x08'
  | 'f' => some '\x0c'
  | 'n' => some '\n'
  | 'r' => some '\r'
  | 't' => some '\t'
  | _ => none

/-- The character that a hexadecimal escape stands for. -/
def hexEscape? (digits : List Char) : Option Char := do
  let value ← hexDigitsValue? digits
  if Nat.isValidChar value then some (Char.ofNat value) else none

/-- Reads a string of one line after its opening quote; `read` are the characters before, the
last one first. -/
def basicText (read : List Char) : TomlReader String
  | [] => none
  | '"' :: cs => some (String.ofList read.reverse, cs)
  | '\\' :: 'u' :: a :: b :: c :: d :: cs => do
    basicText ((← hexEscape? [a, b, c, d]) :: read) cs
  | '\\' :: 'U' :: a :: b :: c :: d :: e :: f :: g :: h :: cs => do
    basicText ((← hexEscape? [a, b, c, d, e, f, g, h]) :: read) cs
  | '\\' :: c :: cs => do basicText ((← shortEscape? c) :: read) cs
  | c :: cs => if isAllowed c then basicText (c :: read) cs else none

/-- Reads a string of several lines after its first line break. A backslash at the end of a
line leaves out all blanks and line breaks up to the next other character; `joining` tells
whether this is going on. Up to two quotes may stand before the three that close the string. -/
def multilineText (joining : Bool) (read : List Char) : TomlReader String
  | [] => none
  | '"' :: '"' :: '"' :: '"' :: '"' :: cs => some (String.ofList ('"' :: '"' :: read).reverse, cs)
  | '"' :: '"' :: '"' :: '"' :: cs => some (String.ofList ('"' :: read).reverse, cs)
  | '"' :: '"' :: '"' :: cs => some (String.ofList read.reverse, cs)
  | '\\' :: 'u' :: a :: b :: c :: d :: cs => do
    multilineText false ((← hexEscape? [a, b, c, d]) :: read) cs
  | '\\' :: 'U' :: a :: b :: c :: d :: e :: f :: g :: h :: cs => do
    multilineText false ((← hexEscape? [a, b, c, d, e, f, g, h]) :: read) cs
  | '\\' :: c :: cs =>
    match shortEscape? c with
    | some escaped => multilineText false (escaped :: read) cs
    | none =>
      if (lineBreak? (skipSpaces (c :: cs))).isSome then multilineText true read (c :: cs) else none
  | '\r' :: '\n' :: cs => multilineText joining (if joining then read else '\n' :: read) cs
  | '\n' :: cs => multilineText joining (if joining then read else '\n' :: read) cs
  | c :: cs =>
    if joining && isSpace c then multilineText true read cs
    else if isAllowed c then multilineText false (c :: read) cs
    else none

/-- Reads a string of one line without escapes, after its opening apostrophe. -/
def literalText (cs : List Char) : Option (String × List Char) :=
  let inside := fun c : Char => isAllowed c && c != '\''
  match cs.dropWhile inside with
  | '\'' :: rest => some (String.ofList (cs.takeWhile inside), rest)
  | _ => none

/-- Reads a string of several lines without escapes, after its first line break. -/
def multilineLiteral (read : List Char) : TomlReader String
  | [] => none
  | '\'' :: '\'' :: '\'' :: '\'' :: '\'' :: cs =>
    some (String.ofList ('\'' :: '\'' :: read).reverse, cs)
  | '\'' :: '\'' :: '\'' :: '\'' :: cs => some (String.ofList ('\'' :: read).reverse, cs)
  | '\'' :: '\'' :: '\'' :: cs => some (String.ofList read.reverse, cs)
  | '\r' :: '\n' :: cs => multilineLiteral ('\n' :: read) cs
  | '\n' :: cs => multilineLiteral ('\n' :: read) cs
  | c :: cs => if isAllowed c then multilineLiteral (c :: read) cs else none

/-- Reads a string of any kind. A line break right after the opening of a string of several
lines does not belong to it. -/
def string (cs : List Char) : Option (String × List Char) :=
  match cs with
  | '"' :: '"' :: '"' :: rest => multilineText false [] ((lineBreak? rest).getD rest)
  | '\'' :: '\'' :: '\'' :: rest => multilineLiteral [] ((lineBreak? rest).getD rest)
  | '"' :: rest => basicText [] rest
  | '\'' :: rest => literalText rest
  | _ => none

/-! ## Keys -/

/-- The characters of keys that stand without quotes. -/
def isBare (c : Char) : Bool := c.isAlphanum || c == '_' || c == '-'

/-- Reads a single key. -/
def key (cs : List Char) : Option (String × List Char) :=
  match cs with
  | '"' :: rest => basicText [] rest
  | '\'' :: rest => literalText rest
  | _ =>
    if (cs.takeWhile isBare).isEmpty then none
    else some (String.ofList (cs.takeWhile isBare), cs.dropWhile isBare)

/-- Reads keys with points between them, of which there are at most `room`. -/
def keyPath : (room : Nat) → TomlReader (List String)
  | 0, _ => none
  | room + 1, cs => do
    let (first, rest) ← key (skipSpaces cs)
    match skipSpaces rest with
    | '.' :: more => (keyPath room more).map fun (others, rest) => (first :: others, rest)
    | rest => return ([first], rest)

end Toml

end Tariff
