/-
# The spelling of lexemes

A text is split by maximal munch: blank characters aside, each literal and each name reaches
as far as characters of its kind go on. `Spells` states this without a scanner, as a relation
between texts and lists of lexemes. The scanner finds exactly the lists that it allows:

* `spells_of_scan` : what the scanner yields is spelled by the text;
* `exists_scan_of_spells` : what the text spells is found by the scanner.
-/
import Tariff.Formula.Lexeme
import Tariff.Proofs.Outcome

namespace Tariff

/-! ## Classes of characters -/

/-- The code points of digits and of the point. -/
theorem isNumberPart_iff_toNat {c : Char} :
    Lexeme.isNumberPart c = true ↔ (48 ≤ c.toNat ∧ c.toNat ≤ 57) ∨ c.toNat = 46 := by
  rw [Lexeme.isNumberPart, Bool.or_eq_true, Char.isDigit_iff_toNat, beq_iff_eq, ← Char.toNat_inj]
  rfl

/-- The code points of letters. -/
theorem isAlpha_iff_toNat {c : Char} :
    c.isAlpha = true ↔ (65 ≤ c.toNat ∧ c.toNat ≤ 90) ∨ (97 ≤ c.toNat ∧ c.toNat ≤ 122) := by
  show (decide (c.val ≥ 'A'.val ∧ c.val ≤ 'Z'.val) ||
    (decide (c.val ≥ 'a'.val) && decide (c.val ≤ 'z'.val))) = true ↔ _
  simp [UInt32.le_iff_toNat_le]

/-- The code points of letters and of the underscore. -/
theorem isNameStart_iff_toNat {c : Char} :
    isNameStart c = true ↔
      ((65 ≤ c.toNat ∧ c.toNat ≤ 90) ∨ (97 ≤ c.toNat ∧ c.toNat ≤ 122)) ∨ c.toNat = 95 := by
  rw [isNameStart, Bool.or_eq_true, isAlpha_iff_toNat, beq_iff_eq, ← Char.toNat_inj]
  rfl

/-- A name goes on with what it may begin with, and with digits. -/
theorem isNamePart_iff {c : Char} :
    isNamePart c = true ↔ isNameStart c = true ∨ c.isDigit = true := by
  simp only [isNamePart, isNameStart, Char.isAlphanum, Bool.or_eq_true]
  tauto

/-- Characters of literals are not blank. -/
theorem isBlank_eq_false_of_isNumberPart {c : Char} (hc : Lexeme.isNumberPart c = true) :
    isBlank c = false := by
  rw [isNumberPart_iff_toNat] at hc
  apply isBlank_eq_false_of_printable <;> omega

/-- Characters that begin a name are not blank. -/
theorem isBlank_eq_false_of_isNameStart {c : Char} (hc : isNameStart c = true) :
    isBlank c = false := by
  rw [isNameStart_iff_toNat] at hc
  apply isBlank_eq_false_of_printable <;> omega

/-- Characters of names are not blank. -/
theorem isBlank_eq_false_of_isNamePart {c : Char} (hc : isNamePart c = true) :
    isBlank c = false := by
  rcases isNamePart_iff.mp hc with hstart | hdigit
  · exact isBlank_eq_false_of_isNameStart hstart
  · exact isBlank_eq_false_of_isNumberPart (Bool.or_eq_true_iff.mpr (Or.inl hdigit))

/-- No character begins both a name and a literal. -/
theorem isNumberPart_eq_false_of_isNameStart {c : Char} (hc : isNameStart c = true) :
    Lexeme.isNumberPart c = false := by
  rw [Bool.eq_false_iff, ne_eq, isNumberPart_iff_toNat]
  rw [isNameStart_iff_toNat] at hc
  omega

/-! ## Maximal runs -/

/-- No character of the class stands at the start, so that a run of the class which ends here
cannot be longer. -/
def Stops (p : Char → Bool) (cs : List Char) : Prop := ∀ c ∈ cs.head?, p c = false

/-- What is left of a run does not go on with it. -/
theorem stops_dropWhile (p : Char → Bool) (cs : List Char) : Stops p (cs.dropWhile p) := by
  intro c hc
  have h := List.head?_dropWhile_not p cs
  rw [Option.mem_def.mp hc] at h
  exact h

/-- A run that cannot be longer is what taking the characters of its class takes. -/
theorem takeWhile_append_of_stops {p : Char → Bool} {run cs : List Char}
    (hrun : ∀ c ∈ run, p c = true) (hstop : Stops p cs) : (run ++ cs).takeWhile p = run := by
  rw [List.takeWhile_append_of_pos hrun]
  cases cs with
  | nil => simp
  | cons c cs => simp [hstop c rfl]

/-- What is left after a run that cannot be longer. -/
theorem dropWhile_append_of_stops {p : Char → Bool} {run cs : List Char}
    (hrun : ∀ c ∈ run, p c = true) (hstop : Stops p cs) : (run ++ cs).dropWhile p = cs := by
  rw [List.dropWhile_append_of_pos hrun]
  cases cs with
  | nil => rfl
  | cons c cs => simp [hstop c rfl]

/-! ## Literals and names -/

/-- A literal is a run of digits and points with at least one digit and at most one point that
has a value among the decimals. -/
structure IsLiteral (text : String) : Prop where
  parts : ∀ c ∈ text.toList, c.isDigit = true ∨ c = '.'
  digit : ∃ c ∈ text.toList, c.isDigit = true
  point : text.toList.count '.' ≤ 1
  value : ∃ value, Decimal.ofText text = .ok value

/-- Literals are made of digits and points. -/
theorem isNumberPart_iff {c : Char} :
    Lexeme.isNumberPart c = true ↔ c.isDigit = true ∨ c = '.' := by
  simp [Lexeme.isNumberPart]

/-- What is accepted as a literal is made of such characters only. -/
theorem IsLiteral.isNumberPart {text : String} (h : IsLiteral text) :
    ∀ c ∈ text.toList, Lexeme.isNumberPart c = true :=
  fun c hc => isNumberPart_iff.mpr (h.parts c hc)

/-- The test for literals decides what a literal is. -/
theorem isNumber_iff_isLiteral {run : List Char} (hrun : ∀ c ∈ run, Lexeme.isNumberPart c = true) :
    Lexeme.isNumber run = true ↔ IsLiteral (String.ofList run) := by
  simp only [Lexeme.isNumber, Bool.and_eq_true, List.any_eq_true, decide_eq_true_eq,
    ← exists_ok_iff_isOk]
  constructor
  · rintro ⟨⟨digit, point⟩, value⟩
    exact ⟨by simpa [isNumberPart_iff] using hrun, by simpa using digit, by simpa using point,
      value⟩
  · intro h
    exact ⟨⟨by simpa using h.digit, by simpa using h.point⟩, h.value⟩

/-- A name has a first character, and all its characters are those that names are made of. -/
theorem exists_cons_of_isName {text : String} (h : isName text = true) :
    ∃ c cs, text.toList = c :: cs ∧ isNameStart c = true ∧ ∀ d ∈ cs, isNamePart d = true := by
  unfold isName at h
  split at h
  · contradiction
  · next c cs heq =>
    rw [Bool.and_eq_true, List.all_eq_true] at h
    exact ⟨c, cs, heq, h⟩

/-! ## The relation -/

/-- A text spells a list of lexemes, blank characters between them aside. -/
inductive Spells : List Char → List Lexeme → Prop where
  | nil : Spells [] []
  | blank {c : Char} {cs : List Char} {lexemes : List Lexeme} (hc : isBlank c = true)
      (rest : Spells cs lexemes) : Spells (c :: cs) lexemes
  | number {text : String} {cs : List Char} {lexemes : List Lexeme} (htext : IsLiteral text)
      (stop : Stops Lexeme.isNumberPart cs) (rest : Spells cs lexemes) :
      Spells (text.toList ++ cs) (.number text :: lexemes)
  | name {text : String} {cs : List Char} {lexemes : List Lexeme} (htext : isName text = true)
      (stop : Stops isNamePart cs) (rest : Spells cs lexemes) :
      Spells (text.toList ++ cs) (.name text :: lexemes)
  | operator {cs : List Char} {lexemes : List Lexeme} (op : InfixOperator)
      (rest : Spells cs lexemes) : Spells (op.char :: cs) (.operator op :: lexemes)
  | opening {cs : List Char} {lexemes : List Lexeme} (rest : Spells cs lexemes) :
      Spells ('(' :: cs) (.opening :: lexemes)
  | closing {cs : List Char} {lexemes : List Lexeme} (rest : Spells cs lexemes) :
      Spells (')' :: cs) (.closing :: lexemes)
  | comma {cs : List Char} {lexemes : List Lexeme} (rest : Spells cs lexemes) :
      Spells (',' :: cs) (.comma :: lexemes)

/-! ## The scanner spells -/

/-- An operator is written with the character that it was recognised by. -/
theorem char_of_ofChar? {c : Char} {op : InfixOperator} (h : InfixOperator.ofChar? c = some op) :
    op.char = c := by
  unfold InfixOperator.ofChar? at h
  split at h <;> cases h <;> rfl

/-- The character of an operator is scanned as the operator. -/
theorem ofChar?_char (op : InfixOperator) : Lexeme.ofChar? op.char = some (.operator op) := by
  cases op <;> rfl

/-- A character that is a lexeme by itself spells that lexeme. -/
theorem Spells.single {c : Char} {cs : List Char} {lexeme : Lexeme} {lexemes : List Lexeme}
    (hc : Lexeme.ofChar? c = some lexeme) (rest : Spells cs lexemes) :
    Spells (c :: cs) (lexeme :: lexemes) := by
  unfold Lexeme.ofChar? at hc
  split at hc
  · cases hc
    exact .opening rest
  · cases hc
    exact .closing rest
  · cases hc
    exact .comma rest
  · obtain ⟨op, hop, rfl⟩ := Option.map_eq_some_iff.mp hc
    rw [← char_of_ofChar? hop]
    exact .operator op rest

/-- A class holds on a run that it was taken from. -/
theorem forall_mem_cons_takeWhile {p : Char → Bool} {c : Char} (hc : p c = true)
    (cs : List Char) : ∀ d ∈ c :: cs.takeWhile p, p d = true := by
  intro d hd
  rcases List.mem_cons.mp hd with rfl | hd
  · exact hc
  · exact List.all_eq_true.mp List.all_takeWhile d hd

/-- What the scanner yields is spelled by the text. -/
theorem spells_of_scan {position : Nat} {cs : List Char} {placed : List PlacedLexeme}
    (h : Lexeme.scan position cs = .ok placed) : Spells cs (placed.map (·.lexeme)) := by
  fun_induction Lexeme.scan position cs generalizing placed
  case case1 =>
    cases h
    exact .nil
  case case2 c rest hblank ih =>
    exact .blank hblank (ih h)
  case case3 c rest hblank hpart run hnumber ih =>
    rw [bind_eq_ok_iff] at h
    obtain ⟨others, hothers, hplaced⟩ := h
    cases hplaced
    have hrun := forall_mem_cons_takeWhile hpart rest
    have hspell := Spells.number ((isNumber_iff_isLiteral hrun).mp hnumber)
      (stops_dropWhile _ rest) (ih hothers)
    rwa [String.toList_ofList, List.cons_append, List.takeWhile_append_dropWhile] at hspell
  case case4 c rest hblank hpart run hnumber =>
    contradiction
  case case5 c rest hblank hpart hstart run ih =>
    rw [bind_eq_ok_iff] at h
    obtain ⟨others, hothers, hplaced⟩ := h
    cases hplaced
    have hname : isName (String.ofList (c :: rest.takeWhile isNamePart)) = true := by
      simp [isName, hstart]
    have hspell := Spells.name hname (stops_dropWhile _ rest) (ih hothers)
    rwa [String.toList_ofList, List.cons_append, List.takeWhile_append_dropWhile] at hspell
  case case6 c rest hblank hpart hstart lexeme hlexeme ih =>
    rw [bind_eq_ok_iff] at h
    obtain ⟨others, hothers, hplaced⟩ := h
    cases hplaced
    exact .single hlexeme (ih hothers)
  case case7 c rest hblank hpart hstart hlexeme =>
    contradiction

/-! ## The scanner finds what is spelled -/

/-- A blank is passed over. -/
theorem scan_blank {c : Char} (hc : isBlank c = true) (position : Nat) (cs : List Char) :
    Lexeme.scan position (c :: cs) = Lexeme.scan (position + c.utf8Size) cs := by
  rw [Lexeme.scan, if_pos hc]

/-- A literal is scanned as one lexeme, if what follows does not go on with it. -/
theorem scan_number {text : String} {cs : List Char} (htext : IsLiteral text)
    (stop : Stops Lexeme.isNumberPart cs) (position : Nat) :
    Lexeme.scan position (text.toList ++ cs) =
      (Lexeme.scan (position + text.toList.length) cs).map (⟨position, .number text⟩ :: ·) := by
  have hparts := htext.isNumberPart
  have hnumber : Lexeme.isNumber text.toList = true :=
    (isNumber_iff_isLiteral hparts).mpr (by rwa [String.ofList_toList])
  -- A literal has a digit, so that there is a first character to decide the branch.
  obtain ⟨d, hd, -⟩ := htext.digit
  cases hlist : text.toList with
  | nil => simp [hlist] at hd
  | cons c run =>
    rw [hlist] at hparts hnumber
    have hpart := hparts c List.mem_cons_self
    have hrun : ∀ d ∈ run, Lexeme.isNumberPart d = true :=
      fun d hd => hparts d (List.mem_cons_of_mem c hd)
    rw [List.cons_append, Lexeme.scan,
      if_neg (by simp [isBlank_eq_false_of_isNumberPart hpart]), if_pos hpart,
      takeWhile_append_of_stops hrun stop, dropWhile_append_of_stops hrun stop, if_pos hnumber,
      ← hlist, String.ofList_toList]
    rfl

/-- A name is scanned as one lexeme, if what follows does not go on with it. -/
theorem scan_name {text : String} {cs : List Char} (htext : isName text = true)
    (stop : Stops isNamePart cs) (position : Nat) :
    Lexeme.scan position (text.toList ++ cs) =
      (Lexeme.scan (position + text.toList.length) cs).map (⟨position, .name text⟩ :: ·) := by
  obtain ⟨c, run, hlist, hstart, hrun⟩ := exists_cons_of_isName htext
  rw [hlist, List.cons_append, Lexeme.scan,
    if_neg (by simp [isBlank_eq_false_of_isNameStart hstart]),
    if_neg (by simp [isNumberPart_eq_false_of_isNameStart hstart]), if_pos hstart,
    takeWhile_append_of_stops hrun stop, dropWhile_append_of_stops hrun stop, ← hlist]
  simp only [String.ofList_toList]
  rfl

/-- A character that is a lexeme by itself begins neither a blank, a literal nor a name. -/
theorem scan_single {c : Char} {lexeme : Lexeme} (hc : Lexeme.ofChar? c = some lexeme)
    (position : Nat) (cs : List Char) :
    Lexeme.scan position (c :: cs) =
      (Lexeme.scan (position + 1) cs).map (⟨position, lexeme⟩ :: ·) := by
  have hclasses : isBlank c = false ∧ Lexeme.isNumberPart c = false ∧ isNameStart c = false := by
    unfold Lexeme.ofChar? InfixOperator.ofChar? at hc
    split at hc
    iterate 3 decide
    split at hc <;> first | decide | contradiction
  obtain ⟨hblank, hpart, hstart⟩ := hclasses
  rw [Lexeme.scan, if_neg (by simp [hblank]), if_neg (by simp [hpart]), if_neg (by simp [hstart])]
  simp only [hc]
  rfl

/-- What the text spells is found by the scanner. -/
theorem exists_scan_of_spells {cs : List Char} {lexemes : List Lexeme} (h : Spells cs lexemes)
    (position : Nat) :
    ∃ placed, Lexeme.scan position cs = .ok placed ∧ placed.map (·.lexeme) = lexemes := by
  induction h generalizing position with
  | nil => exact ⟨[], by rw [Lexeme.scan], rfl⟩
  | blank hc _ ih => rw [scan_blank hc]; exact ih _
  | number htext stop _ ih =>
    obtain ⟨placed, hplaced, rfl⟩ := ih (position + _)
    rw [scan_number htext stop, hplaced]
    exact ⟨_, rfl, rfl⟩
  | name htext stop _ ih =>
    obtain ⟨placed, hplaced, rfl⟩ := ih (position + _)
    rw [scan_name htext stop, hplaced]
    exact ⟨_, rfl, rfl⟩
  | operator op _ ih =>
    obtain ⟨placed, hplaced, rfl⟩ := ih (position + 1)
    rw [scan_single (ofChar?_char op), hplaced]
    exact ⟨_, rfl, rfl⟩
  | opening _ ih =>
    obtain ⟨placed, hplaced, rfl⟩ := ih (position + 1)
    rw [scan_single rfl, hplaced]
    exact ⟨_, rfl, rfl⟩
  | closing _ ih =>
    obtain ⟨placed, hplaced, rfl⟩ := ih (position + 1)
    rw [scan_single rfl, hplaced]
    exact ⟨_, rfl, rfl⟩
  | comma _ ih =>
    obtain ⟨placed, hplaced, rfl⟩ := ih (position + 1)
    rw [scan_single rfl, hplaced]
    exact ⟨_, rfl, rfl⟩

end Tariff
