/-
# The lexemes of written JSON

What is written is scanned again as it was meant, whatever stands behind it: a string literal as
the characters of its text, an integer as its digits, and brackets, commas and colons as
themselves, with or without blanks between them.

* `JsonLexeme.scanText_writeText` : the escapes of a string literal;
* `TextLiteral.decode_ofText` : a written literal stands for its text;
* `JsonLexeme.scanNumber_digits` : the digits of an integer;
* `JsonLexeme.Spells` : a text with its lexemes, before any text that does not go on with a number;
* `JsonLexeme.Spells.separated`, `JsonLexeme.Spells.bracketed` : arrays and objects in any layout.
-/
import Mathlib.Data.List.TakeWhile
import Tariff.Json.Reader
import Tariff.Proofs.Json.Number

namespace Tariff

/-! ## String literals -/

/-- The piece that a character is scanned as when it is written in a string literal. -/
def writtenPiece (c : Char) : TextPiece :=
  if c.toNat < 32 ∧ c ≠ '\x08' ∧ c ≠ '\x0c' ∧ c ≠ '\n' ∧ c ≠ '\r' ∧ c ≠ '\t' then .unit c.toNat
  else .char c

/-- The literal that a text is scanned as when it is written. -/
def TextLiteral.ofText (s : String) : TextLiteral := ⟨s.toList.map writtenPiece, none⟩

namespace JsonLexeme

/-- The escape of a control character stands for it. -/
theorem hexDigitsValue?_control {n : Nat} (h : n < 32) :
    hexDigitsValue? ['0', '0', Nat.digitChar (n / 16), Nat.digitChar (n % 16)] = some n := by
  have hall : ∀ k < 32,
      hexDigitsValue? ['0', '0', Nat.digitChar (k / 16), Nat.digitChar (k % 16)] = some k := by
    decide
  exact hall n h

/-- A character is scanned as it was written. -/
theorem scanText_escapeChar (pieces : List TextPiece) (c : Char) (rest : List Char) :
    scanText pieces (Json.escapeChar c ++ rest) = scanText (writtenPiece c :: pieces) rest := by
  unfold Json.escapeChar
  split
  · rfl
  · rfl
  · rfl
  · rfl
  · rfl
  · rfl
  · rfl
  · next hquote hslash hb hf hn hr ht =>
    by_cases hcontrol : c.toNat < 32
    · have hpiece : writtenPiece c = .unit c.toNat := if_pos ⟨hcontrol, hb, hf, hn, hr, ht⟩
      rw [if_pos hcontrol, hpiece]
      show scanText pieces ('\\' :: 'u' :: '0' :: '0' :: _ :: _ :: rest) = _
      rw [scanText, hexDigitsValue?_control hcontrol]
    · have hpiece : writtenPiece c = .char c := if_neg fun h => hcontrol h.1
      rw [if_neg hcontrol, hpiece, List.singleton_append]
      rw [scanText.eq_def]
      split <;> simp_all

/-- A written text is scanned up to its closing quote. -/
theorem scanText_writeText (pieces : List TextPiece) (cs rest : List Char) :
    scanText pieces (cs.flatMap Json.escapeChar ++ '"' :: rest) =
      (⟨pieces.reverse ++ cs.map writtenPiece, none⟩, rest) := by
  -- The induction is on the characters, after any pieces.
  induction cs generalizing pieces with
  | nil => rw [List.flatMap_nil, List.nil_append, List.map_nil, List.append_nil, scanText]
  | cons c cs ih =>
    rw [List.flatMap_cons, List.append_assoc, scanText_escapeChar, ih, List.reverse_cons,
      List.append_assoc, List.singleton_append, List.map_cons]

end JsonLexeme

/-- A written literal stands for its characters. -/
theorem decodePieces_written (cs : List Char) :
    decodePieces none (cs.map writtenPiece) = .ok cs := by
  induction cs with
  | nil => rfl
  | cons c cs ih =>
    rw [List.map_cons]
    by_cases h : c.toNat < 32 ∧ c ≠ '\x08' ∧ c ≠ '\x0c' ∧ c ≠ '\n' ∧ c ≠ '\r' ∧ c ≠ '\t'
    · have hpiece : writtenPiece c = .unit c.toNat := if_pos h
      have hlow := h.1
      rw [hpiece, decodePieces.eq_def]
      dsimp only
      rw [if_neg (by omega), if_neg (by omega), ih, Char.ofNat_toNat]
      rfl
    · have hpiece : writtenPiece c = .char c := if_neg h
      rw [hpiece, decodePieces, ih]
      rfl

/-- The literal of a text stands for the text. -/
@[simp]
theorem TextLiteral.decode_ofText (s : String) : (TextLiteral.ofText s).decode = .ok s := by
  rw [TextLiteral.decode, TextLiteral.ofText, decodePieces_written]
  exact congrArg Except.ok String.ofList_toList

/-! ## Integers -/

/-- The literal that an integer is written as. -/
def NumberLiteral.ofInt : ℤ → NumberLiteral
  | .ofNat n => ⟨false, Nat.toDigits 10 n, [], none⟩
  | .negSucc n => ⟨true, Nat.toDigits 10 (n + 1), [], none⟩

namespace JsonLexeme

/-- A text that cannot go on with a number in front of it. -/
def EndsNumber (rest : List Char) : Prop :=
  ∀ c ∈ rest.head?, c.isDigit = false ∧ c ≠ '.' ∧ c ≠ 'e' ∧ c ≠ 'E'

/-- A number cannot go on where the text ends. -/
theorem endsNumber_nil : EndsNumber [] := fun _ h => nomatch h

/-- Nor can it with a character that is no part of a number. -/
theorem endsNumber_cons {c : Char} {rest : List Char}
    (h : c.isDigit = false ∧ c ≠ '.' ∧ c ≠ 'e' ∧ c ≠ 'E') : EndsNumber (c :: rest) := by
  rintro c' hc'
  cases hc'
  exact h

/-- A number that cannot go on has neither a fraction nor an exponent. -/
theorem scanFraction_ended (literal : NumberLiteral) {rest : List Char} (h : EndsNumber rest) :
    scanFraction literal rest = (.number literal, rest) := by
  cases rest with
  | nil => rfl
  | cons c rest =>
    obtain ⟨-, hpoint, he, hE⟩ := h c rfl
    have hmark : (c == 'e' || c == 'E') = false := by
      rw [beq_false_of_ne he, beq_false_of_ne hE, Bool.or_self]
    rw [scanFraction, scanExponent]
    · dsimp only
      rw [if_neg (by rw [hmark]; exact Bool.false_ne_true)]
    · rintro cs hcs
      exact hpoint (List.cons.inj hcs).1

/-- No digits stand behind a zero that a number begins with. -/
theorem toDigits_eq_zero_cons {n : Nat} {others : List Char}
    (h : Nat.toDigits 10 n = '0' :: others) : others = [] := by
  by_contra hothers
  have hdigits : ∀ c ∈ others, c.isDigit = true := fun c hc =>
    Nat.isDigit_of_mem_toDigits (by decide) (by decide) (h ▸ List.mem_cons_of_mem '0' hc)
  have hvalue : n = digitsValue others := by
    rw [← digitsValue_toDigits n, h]
    exact digitsValue_zeros_append 1 others
  have hsmall : n < 10 ^ others.length := by
    rw [hvalue]
    exact digitsValue_lt hdigits
  have hlength : (Nat.toDigits 10 n).length ≤ others.length :=
    (Nat.length_toDigits_le_iff (by decide) (List.length_pos_of_ne_nil hothers)).mpr hsmall
  rw [h, List.length_cons] at hlength
  omega

/-- The digits of a number are scanned up to their end. -/
theorem scanNumber_digits (negative : Bool) (n : Nat) {rest : List Char} (h : EndsNumber rest) :
    scanNumber negative (Nat.toDigits 10 n ++ rest) =
      (.number ⟨negative, Nat.toDigits 10 n, [], none⟩, rest) := by
  have hall : ∀ c ∈ Nat.toDigits 10 n, c.isDigit = true :=
    fun c hc => Nat.isDigit_of_mem_toDigits (by decide) (by decide) hc
  have hend : rest.takeWhile Char.isDigit = [] ∧ rest.dropWhile Char.isDigit = rest := by
    cases rest with
    | nil => exact ⟨rfl, rfl⟩
    | cons c rest =>
      have hc := (h c rfl).1
      exact ⟨List.takeWhile_cons_of_neg (by rw [hc]; decide),
        List.dropWhile_cons_of_neg (by rw [hc]; decide)⟩
  have hdigits : (Nat.toDigits 10 n ++ rest).takeWhile Char.isDigit = Nat.toDigits 10 n := by
    rw [List.takeWhile_append_of_pos hall, hend.1, List.append_nil]
  have hrest : (Nat.toDigits 10 n ++ rest).dropWhile Char.isDigit = rest := by
    rw [List.dropWhile_append_of_pos hall, hend.2]
  rw [scanNumber, hdigits, hrest]
  split
  · next hnone => exact absurd hnone Nat.toDigits_ne_nil
  · next others hzero => exact absurd (toDigits_eq_zero_cons hzero) (List.cons_ne_nil _ _)
  · exact scanFraction_ended _ h

/-! ## Whole texts -/

/-- A text without characters has no lexemes. -/
@[simp]
theorem scan_nil : scan [] = [] := by rw [scan]

/-- The lexeme of a bracket, comma or colon. -/
def punctuation? : Char → Option JsonLexeme
  | '[' => some .openArray
  | ']' => some .closeArray
  | '\x7b' => some .openObject
  | '\x7d' => some .closeObject
  | ':' => some .colon
  | ',' => some .comma
  | _ => none

/-- A bracket, comma or colon is a lexeme by itself. -/
theorem scan_punctuation {c : Char} {lexeme : JsonLexeme} (h : punctuation? c = some lexeme)
    (rest : List Char) : scan (c :: rest) = lexeme :: scan rest := by
  unfold punctuation? at h
  split at h <;> cases h <;> rw [scan] <;> rfl

/-- Blanks before a text are passed over. -/
theorem scan_blank {blanks : List Char} (h : ∀ c ∈ blanks, isSpace c = true) (rest : List Char) :
    scan (blanks ++ rest) = scan rest := by
  induction blanks with
  | nil => rfl
  | cons c blanks ih =>
    obtain ⟨hc, hblanks⟩ := List.forall_mem_cons.mp h
    rw [List.cons_append, scan.eq_def]
    dsimp only
    rw [if_pos hc, ih hblanks]

/-- A quotation mark begins a string. -/
theorem scan_text (rest : List Char) :
    scan ('"' :: rest) = .text (scanText [] rest).1 :: scan (scanText [] rest).2 := by
  rw [scan.eq_def]
  rfl

/-- A minus sign begins a number. -/
theorem scan_minus (rest : List Char) :
    scan ('-' :: rest) = (scanNumber true rest).1 :: scan (scanNumber true rest).2 := by
  rw [scan.eq_def]
  rfl

/-- So does a digit. -/
theorem scan_digit {c : Char} (h : c.isDigit = true) (rest : List Char) :
    scan (c :: rest) =
      (scanNumber false (c :: rest)).1 :: scan (scanNumber false (c :: rest)).2 := by
  have hother : ∀ d : Char, d.isDigit = false → (c == d) = false := by
    rintro d hd
    exact beq_false_of_ne fun hsame => by simp [← hsame, h] at hd
  have hspace : isSpace c = false := by
    rw [isSpace, hother ' ' rfl, hother '\t' rfl, hother '\n' rfl, hother '\r' rfl]
    rfl
  rw [scan.eq_def]
  dsimp only
  rw [if_neg (by simp [hspace]), if_neg (by simp [hother '"' rfl]),
    if_neg (by simp [hother '-' rfl]), if_pos h]

/-- A text is scanned as these lexemes, whatever follows that does not go on with a number. -/
def Spells (text : List Char) (lexemes : List JsonLexeme) : Prop :=
  ∀ rest, EndsNumber rest → scan (text ++ rest) = lexemes ++ scan rest

namespace Spells

variable {text before after : List Char} {lexemes others : List JsonLexeme}

/-- A text is scanned as the lexemes that it spells. -/
theorem scan_eq (h : Spells text lexemes) : scan text = lexemes := by
  have hend := h [] endsNumber_nil
  rwa [List.append_nil, scan_nil, List.append_nil] at hend

/-- No characters spell no lexemes. -/
theorem nil : Spells [] [] := fun _ _ => rfl

/-- The word `null` spells its lexeme. -/
theorem null : Spells "null".toList [.null] := by
  intro rest _
  show scan ('n' :: 'u' :: 'l' :: 'l' :: rest) = _
  rw [scan]
  rfl

/-- The words `true` and `false` spell their lexemes. -/
theorem boolean (value : Bool) :
    Spells (if value then "true" else "false").toList [.boolean value] := by
  intro rest _
  cases value
  · show scan ('f' :: 'a' :: 'l' :: 's' :: 'e' :: rest) = _
    rw [scan]
    rfl
  · show scan ('t' :: 'r' :: 'u' :: 'e' :: rest) = _
    rw [scan]
    rfl

/-- A written text spells its literal. -/
theorem writeText (s : String) :
    Spells (Json.writeText s).toList [.text (TextLiteral.ofText s)] := by
  intro rest _
  have hscan := scanText_writeText [] s.toList rest
  have htext : (Json.writeText s).toList ++ rest =
      '"' :: (s.toList.flatMap Json.escapeChar ++ '"' :: rest) := by
    simp only [Json.writeText, String.toList_ofList, List.cons_append, List.append_assoc,
      List.nil_append]
  rw [htext, scan_text, hscan]
  rfl

/-- A written integer spells its literal. -/
theorem integer (n : ℤ) : Spells (toString n).toList [.number (NumberLiteral.ofInt n)] := by
  intro rest hrest
  cases n with
  | ofNat m =>
    have htext : (toString (Int.ofNat m)).toList = Nat.toDigits 10 m := by
      show (Nat.repr m).toList = _
      rw [Nat.repr_eq_ofList_toDigits, String.toList_ofList]
    obtain ⟨c, others, hdigits⟩ :=
      List.exists_cons_of_ne_nil (Nat.toDigits_ne_nil (n := m) (b := 10))
    have hmem : c ∈ Nat.toDigits 10 m := hdigits ▸ List.mem_cons_self
    have hc : c.isDigit = true := Nat.isDigit_of_mem_toDigits (by decide) (by decide) hmem
    have hscan := scanNumber_digits false m hrest
    rw [htext]
    rw [hdigits, List.cons_append] at hscan ⊢
    rw [scan_digit hc, hscan, ← hdigits]
    rfl
  | negSucc m =>
    have htext : (toString (Int.negSucc m)).toList = '-' :: Nat.toDigits 10 (m + 1) := by
      show ("-" ++ Nat.repr (m + 1)).toList = _
      rw [String.toList_append, Nat.repr_eq_ofList_toDigits]
      exact congrArg ('-' :: ·) String.toList_ofList
    rw [htext, List.cons_append, scan_minus, scanNumber_digits true (m + 1) hrest]
    rfl

/-! ### Layouts -/

variable {blanks : List Char} {c : Char} {lexeme : JsonLexeme}

/-- A blank ends a number. -/
theorem endsNumber_of_isSpace (h : isSpace c = true) (rest : List Char) :
    EndsNumber (c :: rest) := by
  simp only [isSpace, Bool.or_eq_true, beq_iff_eq] at h
  refine endsNumber_cons ?_
  rcases h with ((rfl | rfl) | rfl) | rfl <;> decide

/-- A bracket, comma or colon ends a number. -/
theorem endsNumber_of_punctuation (h : punctuation? c = some lexeme) (rest : List Char) :
    EndsNumber (c :: rest) := by
  refine endsNumber_cons ?_
  unfold punctuation? at h
  split at h <;> first | decide | contradiction

/-- A comma, colon or bracket, with blanks before it, ends a number. -/
theorem endsNumber_blanks (hblanks : ∀ c ∈ blanks, isSpace c = true)
    (h : punctuation? c = some lexeme) (rest : List Char) : EndsNumber (blanks ++ c :: rest) := by
  cases blanks with
  | nil => exact endsNumber_of_punctuation h rest
  | cons blank blanks =>
    exact endsNumber_of_isSpace (hblanks blank List.mem_cons_self) (blanks ++ c :: rest)

/-- Blanks before a text change none of its lexemes. -/
theorem blank_append (hblanks : ∀ c ∈ blanks, isSpace c = true) (h : Spells text lexemes) :
    Spells (blanks ++ text) lexemes := by
  intro rest hrest
  rw [List.append_assoc, scan_blank hblanks, h rest hrest]

/-- A bracket, comma or colon before a text puts its lexeme before the others. -/
theorem cons_punctuation (hc : punctuation? c = some lexeme) (h : Spells text lexemes) :
    Spells (c :: text) (lexeme :: lexemes) := by
  intro rest hrest
  rw [List.cons_append, scan_punctuation hc, h rest hrest, List.cons_append]

/-- A bracket, comma or colon between two texts puts its lexeme between theirs, with blanks before
it or without. -/
theorem append_punctuation (hbefore : Spells before lexemes)
    (hblanks : ∀ c ∈ blanks, isSpace c = true) (hc : punctuation? c = some lexeme)
    (hafter : Spells after others) :
    Spells (before ++ (blanks ++ c :: after)) (lexemes ++ lexeme :: others) := by
  intro rest hrest
  have hends : EndsNumber (blanks ++ c :: (after ++ rest)) := endsNumber_blanks hblanks hc _
  have htext : before ++ (blanks ++ c :: after) ++ rest =
      before ++ (blanks ++ c :: (after ++ rest)) := by
    simp only [List.append_assoc, List.cons_append]
  rw [htext, hbefore _ hends, scan_blank hblanks, scan_punctuation hc, hafter rest hrest,
    List.append_assoc, List.cons_append]

/-- Texts with commas between them, and blanks behind the commas. -/
theorem separated (hblanks : ∀ c ∈ blanks, isSpace c = true) {texts : List (List Char)}
    {words : List (List JsonLexeme)} (h : List.Forall₂ Spells texts words) :
    Spells ((',' :: blanks).intercalate texts) ([.comma].intercalate words) := by
  induction h with
  | nil => exact nil
  | @cons text lexemes texts words hfirst hothers ih =>
    cases hothers with
    | nil =>
      rw [List.intercalate_singleton, List.intercalate_singleton]
      exact hfirst
    | cons hsecond hrest =>
      rw [List.intercalate_cons_cons, List.intercalate_cons_cons]
      have hcomma : punctuation? ',' = some .comma := rfl
      have hall :=
        append_punctuation hfirst (List.forall_mem_nil _) hcomma (blank_append hblanks ih)
      simpa using hall

/-- A text between brackets, with blanks inside of them. -/
theorem bracketed {opening closing : Char} {first last : JsonLexeme} {inner outer : List Char}
    (hopening : punctuation? opening = some first) (hclosing : punctuation? closing = some last)
    (hinner : ∀ c ∈ inner, isSpace c = true) (houter : ∀ c ∈ outer, isSpace c = true)
    (h : Spells text lexemes) :
    Spells (opening :: (inner ++ (text ++ (outer ++ [closing])))) (first :: (lexemes ++ [last])) :=
  cons_punctuation hopening
    (blank_append hinner (append_punctuation h houter hclosing nil))

end Spells

end JsonLexeme

end Tariff
