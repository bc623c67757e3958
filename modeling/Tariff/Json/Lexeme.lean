/-
# Lexemes of JSON

The words of a JSON text. Literals are kept as they are written, so that reading a value can
be strict about them where skipping over it is not: a number may be too large, an escape may
stand for half a character.
-/
import Tariff.Json.Fault
import Tariff.Text.Digits

namespace Tariff

/-- A number as it is written: its digits before the point, behind it, and in the exponent. -/
structure NumberLiteral where
  negative : Bool
  whole : List Char
  fraction : List Char
  exponent : Option (Bool × List Char)
  deriving DecidableEq

/-- A piece of a string literal: a character, or the 16 bits of a hexadecimal escape. -/
inductive TextPiece where
  | char (c : Char)
  | unit (bits : Nat)
  deriving DecidableEq

/-- A string literal as it is written, up to its closing quote or to a fault before it. -/
structure TextLiteral where
  pieces : List TextPiece
  fault : Option JsonFault
  deriving DecidableEq

/-- A word of a JSON text. A broken one has two faults: the one that a reader of the value
reports, and the one that is reported where the value is skipped. -/
inductive JsonLexeme where
  | null
  | boolean (value : Bool)
  | number (literal : NumberLiteral)
  | text (literal : TextLiteral)
  | openArray
  | closeArray
  | openObject
  | closeObject
  | colon
  | comma
  | broken (read skipped : JsonFault)
  deriving DecidableEq

namespace JsonLexeme

/-- The blank characters of JSON. -/
def isSpace (c : Char) : Bool := c == ' ' || c == '\t' || c == '\n' || c == '\r'

/-! ## Words -/

/-- Checks that the text goes on with the given letters. -/
def expect : List Char → List Char → Option JsonFault
  | [], _ => none
  | _ :: _, [] => some .unfinished
  | letter :: letters, c :: cs => if letter = c then expect letters cs else some .malformed

/-- The word that begins a text, of which `letters` are still to come. -/
def word (lexeme : JsonLexeme) (letters cs : List Char) : JsonLexeme :=
  match expect letters cs with
  | none => lexeme
  | some fault => .broken fault fault

/-! ## Numbers -/

/-- A fault in a number where a digit is due. -/
def digitMissing (cs : List Char) : JsonLexeme :=
  .broken (if cs.isEmpty then .unfinished else .malformed) .malformed

/-- Goes on with the exponent of a number, if there is one. -/
def scanExponent (literal : NumberLiteral) (cs : List Char) : JsonLexeme × List Char :=
  let isMark := fun c : Char => c == 'e' || c == 'E'
  match cs with
  | [] => (.number literal, [])
  | c :: rest =>
    if isMark c then
      let negative := rest.head? == some '-'
      let digits := if negative || rest.head? == some '+' then rest.drop 1 else rest
      if (digits.takeWhile Char.isDigit).isEmpty then (digitMissing digits, [])
      else
        (.number { literal with exponent := some (negative, digits.takeWhile Char.isDigit) },
          digits.dropWhile Char.isDigit)
    else
      (.number literal, cs)

/-- Goes on with the fraction of a number, if there is one. -/
def scanFraction (literal : NumberLiteral) (cs : List Char) : JsonLexeme × List Char :=
  match cs with
  | '.' :: rest =>
    if (rest.takeWhile Char.isDigit).isEmpty then (digitMissing rest, [])
    else
      scanExponent { literal with fraction := rest.takeWhile Char.isDigit }
        (rest.dropWhile Char.isDigit)
  | _ => scanExponent literal cs

/-- Scans a number after its sign. A zero is not followed by further digits. -/
def scanNumber (negative : Bool) (cs : List Char) : JsonLexeme × List Char :=
  let digits := cs.takeWhile Char.isDigit
  match digits with
  | [] => (digitMissing cs, [])
  | '0' :: _ :: _ => (.broken .malformed .malformed, [])
  | _ => scanFraction ⟨negative, digits, [], none⟩ (cs.dropWhile Char.isDigit)

/-! ## Strings -/

/-- The character that a short escape stands for. -/
def shortEscape? : Char → Option Char
  | '"' => some '"'
  | '\\' => some '\\'
  | '/' => some '/'
  | 'b' => some '\x08'
  | 'f' => some '\x0c'
  | 'n' => some '\n'
  | 'r' => some '\r'
  | 't' => some '\t'
  | _ => none

/-- The fault of a hexadecimal escape that is not four digits long: the text has to hold four
more bytes before it is called malformed. -/
def escapeFault (cs : List Char) : JsonFault :=
  if cs.foldl (fun n c => n + c.utf8Size) 0 < 4 then .unfinished else .malformed

/-- Scans a string after its opening quote; `pieces` are those before, the last one first. -/
def scanText (pieces : List TextPiece) : List Char → TextLiteral × List Char
  | [] => (⟨pieces.reverse, some .unfinished⟩, [])
  | '"' :: rest => (⟨pieces.reverse, none⟩, rest)
  | '\\' :: 'u' :: a :: b :: c :: d :: rest =>
    match hexDigitsValue? [a, b, c, d] with
    | some bits => scanText (.unit bits :: pieces) rest
    | none => (⟨pieces.reverse, some .malformed⟩, [])
  | '\\' :: 'u' :: rest => (⟨pieces.reverse, some (escapeFault rest)⟩, [])
  | '\\' :: c :: rest =>
    match shortEscape? c with
    | some escaped => scanText (.char escaped :: pieces) rest
    | none => (⟨pieces.reverse, some .malformed⟩, [])
  | ['\\'] => (⟨pieces.reverse, some .unfinished⟩, [])
  | c :: rest =>
    if c.toNat < 32 then (⟨pieces.reverse, some .malformed⟩, [])
    else scanText (.char c :: pieces) rest

/-! ## Whole texts -/

/-- Scanning an exponent leaves no more than there was. -/
theorem length_scanExponent (literal : NumberLiteral) (cs : List Char) :
    (scanExponent literal cs).2.length ≤ cs.length := by
  cases cs with
  | nil => simp [scanExponent]
  | cons c rest =>
    have hdrop : (rest.drop 1).length ≤ rest.length := by simp
    have hsame := (List.dropWhile_sublist Char.isDigit (l := rest)).length_le
    have hnext := (List.dropWhile_sublist Char.isDigit (l := rest.drop 1)).length_le
    unfold scanExponent
    dsimp only
    generalize rest.drop 1 = signless at hdrop hnext
    repeat' split
    all_goals simp only [List.length_cons, List.length_nil]
    all_goals omega

/-- Scanning a fraction and an exponent leaves no more than there was. -/
theorem length_scanFraction (literal : NumberLiteral) (cs : List Char) :
    (scanFraction literal cs).2.length ≤ cs.length := by
  unfold scanFraction
  split
  · split
    · simp
    · rename_i rest _
      have hdrop := (List.dropWhile_sublist Char.isDigit (l := rest)).length_le
      refine Nat.le_trans (length_scanExponent _ _) ?_
      simp only [List.length_cons]
      omega
  · exact length_scanExponent _ _

/-- Scanning a number leaves no more than what follows its first digits. -/
theorem length_scanNumber (negative : Bool) (cs : List Char) :
    (scanNumber negative cs).2.length ≤ (cs.dropWhile Char.isDigit).length := by
  unfold scanNumber
  dsimp only
  split
  · simp
  · simp
  · exact length_scanFraction _ _

/-- Scanning the rest of a string leaves no more than there was. -/
theorem length_scanText (pieces : List TextPiece) (cs : List Char) :
    (scanText pieces cs).2.length ≤ cs.length := by
  fun_induction scanText pieces cs <;> simp_all <;> omega

/-- A string takes at least its quotation mark. -/
theorem length_scanText_lt (c : Char) (rest : List Char) :
    (scanText [] rest).2.length < (c :: rest).length :=
  Nat.lt_succ_of_le (length_scanText [] rest)

/-- A number with a minus sign takes at least the sign. -/
theorem length_scanNumber_lt (negative : Bool) (c : Char) (rest : List Char) :
    (scanNumber negative rest).2.length < (c :: rest).length :=
  Nat.lt_succ_of_le
    (Nat.le_trans (length_scanNumber negative rest) (List.dropWhile_sublist _).length_le)

/-- A number without a sign takes at least its first digit. -/
theorem length_scanNumber_digit_lt (negative : Bool) {c : Char} (rest : List Char)
    (h : c.isDigit = true) : (scanNumber negative (c :: rest)).2.length < (c :: rest).length := by
  refine Nat.lt_succ_of_le (Nat.le_trans (length_scanNumber negative (c :: rest)) ?_)
  rw [List.dropWhile_cons_of_pos h]
  exact (List.dropWhile_sublist _).length_le

/-- What is left behind the first character is shorter than the whole, however much of it is
dropped. -/
theorem length_drop_lt (n : Nat) (c : Char) (rest : List Char) :
    (rest.drop n).length < (c :: rest).length := by
  rw [List.length_drop]
  exact Nat.lt_succ_of_le (Nat.sub_le _ _)

/-- The lexemes of a text. After a broken one, whatever follows is of no account. -/
def scan (cs : List Char) : List JsonLexeme :=
  match cs with
  | [] => []
  | c :: rest =>
    if isSpace c then scan rest
    else if c == '"' then
      .text (scanText [] rest).1 :: scan (scanText [] rest).2
    else if c == '-' then
      (scanNumber true rest).1 :: scan (scanNumber true rest).2
    else if c.isDigit then
      (scanNumber false (c :: rest)).1 :: scan (scanNumber false (c :: rest)).2
    else
      match c with
      | '[' => .openArray :: scan rest
      | ']' => .closeArray :: scan rest
      | '{' => .openObject :: scan rest
      | '}' => .closeObject :: scan rest
      | ':' => .colon :: scan rest
      | ',' => .comma :: scan rest
      | 'n' => word .null ['u', 'l', 'l'] rest :: scan (rest.drop 3)
      | 't' => word (.boolean true) ['r', 'u', 'e'] rest :: scan (rest.drop 3)
      | 'f' => word (.boolean false) ['a', 'l', 's', 'e'] rest :: scan (rest.drop 4)
      | _ => [.broken .malformed .malformed]
termination_by cs.length
decreasing_by
  · exact Nat.lt_succ_self _
  · exact length_scanText_lt c rest
  · exact length_scanNumber_lt true c rest
  · exact length_scanNumber_digit_lt false rest ‹c.isDigit = true›
  · exact Nat.lt_succ_self _
  · exact Nat.lt_succ_self _
  · exact Nat.lt_succ_self _
  · exact Nat.lt_succ_self _
  · exact Nat.lt_succ_self _
  · exact Nat.lt_succ_self _
  · exact length_drop_lt 3 _ rest
  · exact length_drop_lt 3 _ rest
  · exact length_drop_lt 4 _ rest

end JsonLexeme

end Tariff
