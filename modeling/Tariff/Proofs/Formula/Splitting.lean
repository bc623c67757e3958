/-
# How texts split into lexemes

A text that can be split is made of its lexemes, with white space before, between and behind them.
Each lexeme stands at its position, which counts bytes, and is as long as the text allows. A text
that cannot be split begins in this way too, and then comes something that no lexeme begins with.
There its fault points to, and no longer beginning of the text splits.

* `scan_lexeme`, `scan_joined` : the scanner at a lexeme, and along lexemes with their gaps;
* `exists_splits` : every text splits up to its end or up to an obstacle;
* `ofText_eq_ok_iff`, `ofText_eq_error_iff` : what is found in a text, and why nothing is;
* `ofText_lossless` : nothing is lost, and faults are where a text stops being made of lexemes.
-/
import Mathlib.Data.String.Basic
import Tariff.Proofs.Formula.Spelling

namespace Tariff

/-! ## Lexemes with gaps -/

/-- The text that a lexeme is read from. -/
def Lexeme.text : Lexeme → String
  | .number text => text
  | .name text => text
  | .operator op => op.char.toString
  | .opening => "("
  | .closing => ")"
  | .comma => ","

/-- A lexeme is well formed, and `after` does not make it longer: behind a literal stands no digit
and no point, and behind a name no character of names. -/
def Lexeme.EndsBefore (after : String) : Lexeme → Prop
  | .number text => IsLiteral text ∧ Stops Lexeme.isNumberPart after.toList
  | .name text => isName text = true ∧ Stops isNamePart after.toList
  | _ => True

/-- A lexeme and the white space before it. -/
structure SpacedLexeme where
  gap : String
  blank : isBlankText gap = true
  lexeme : Lexeme

namespace SpacedLexeme

/-- The text of lexemes with their gaps, and `rest` behind the last one. -/
def joined : List SpacedLexeme → String → String
  | [], rest => rest
  | first :: others, rest => first.gap ++ (first.lexeme.text ++ joined others rest)

/-- The lexemes at their positions, where the first gap begins at byte `start`. -/
def placed (start : Nat) : List SpacedLexeme → List PlacedLexeme
  | [] => []
  | first :: others =>
    let position := start + first.gap.utf8ByteSize
    ⟨position, first.lexeme⟩ :: placed (position + first.lexeme.text.utf8ByteSize) others

/-- Each lexeme ends before what follows it, which is `rest` behind the last one. -/
def Maximal (rest : String) : List SpacedLexeme → Prop
  | [] => True
  | first :: others => first.lexeme.EndsBefore (joined others rest) ∧ Maximal rest others

end SpacedLexeme

open SpacedLexeme

/-- The text `before`, with `after` behind it, is made of placed lexemes and white space, and each
lexeme is as long as the whole text allows. -/
def Splits (before after : String) (lexemes : List PlacedLexeme) : Prop :=
  ∃ spaced tail, isBlankText tail = true ∧ before = joined spaced tail ∧
    lexemes = placed 0 spaced ∧ Maximal (tail ++ after) spaced

/-- Why no lexeme begins where a text begins that does not begin with white space: its first
character belongs to no lexeme, or its first digits and points are no literal. -/
inductive Obstacle : String → SyntaxCause → Prop where
  | unknown {c : Char} {rest : String} (hblank : isBlank c = false)
      (hnumber : Lexeme.isNumberPart c = false) (hname : isNameStart c = false)
      (hsingle : c ∉ ['+', '-', '*', '/', '^', '(', ')', ',']) :
      Obstacle (c.toString ++ rest) (.unknownCharacter c)
  | malformed {run rest : String} (hne : run ≠ "")
      (hparts : ∀ c ∈ run.toList, Lexeme.isNumberPart c = true)
      (hstop : Stops Lexeme.isNumberPart rest.toList) (hliteral : ¬ IsLiteral run) :
      Obstacle (run ++ rest) (.malformedNumber run)

/-! ## Sizes -/

theorem utf8ByteSize_eq_utf8Len (text : String) :
    text.utf8ByteSize = String.utf8Len text.toList := by
  rw [← String.utf8ByteSize_ofList, String.ofList_toList]

/-- The characters of ASCII take one byte each. -/
theorem utf8ByteSize_of_ascii {text : String} (h : ∀ c ∈ text.toList, c.toNat < 128) :
    text.utf8ByteSize = text.toList.length := by
  rw [utf8ByteSize_eq_utf8Len]
  generalize text.toList = characters at h
  induction characters with
  | nil => rfl
  | cons c cs ih =>
    obtain ⟨hc, hcs⟩ := List.forall_mem_cons.mp h
    have hsize : c.utf8Size = 1 := by
      rw [Char.utf8Size_eq_one_iff, UInt32.le_iff_toNat_le]
      exact Nat.le_of_lt_succ hc
    rw [String.utf8Len_cons, ih hcs, hsize, List.length_cons]

theorem toNat_lt_of_isNamePart {c : Char} (hc : isNamePart c = true) : c.toNat < 128 := by
  rw [isNamePart_iff, isNameStart_iff_toNat, Char.isDigit_iff_toNat] at hc
  have hnine : '9'.toNat = 57 := rfl
  omega

theorem isNamePart_of_isName {text : String} (h : isName text = true) :
    ∀ c ∈ text.toList, isNamePart c = true := by
  obtain ⟨c, cs, hlist, hstart, hcs⟩ := exists_cons_of_isName h
  rw [hlist]
  exact List.forall_mem_cons.mpr ⟨isNamePart_iff.mpr (Or.inl hstart), hcs⟩

/-! ## The scanner along lexemes -/

theorem scan_blanks {gap : String} (h : isBlankText gap = true) (start : Nat) (rest : String) :
    Lexeme.scan start (gap ++ rest).toList =
      Lexeme.scan (start + gap.utf8ByteSize) rest.toList := by
  rw [String.toList_append, utf8ByteSize_eq_utf8Len]
  rw [isBlankText, List.all_eq_true] at h
  generalize gap.toList = characters at h
  induction characters generalizing start with
  | nil => rfl
  | cons c cs ih =>
    obtain ⟨hc, hcs⟩ := List.forall_mem_cons.mp h
    rw [List.cons_append, scan_blank hc, ih _ hcs, String.utf8Len_cons, Nat.add_right_comm,
      Nat.add_assoc]

/-- Where a lexeme ends before what follows it, the scanner takes it and goes on behind it. -/
theorem scan_lexeme {lexeme : Lexeme} {after : String} (h : lexeme.EndsBefore after)
    (start : Nat) :
    Lexeme.scan start (lexeme.text ++ after).toList =
      (Lexeme.scan (start + lexeme.text.utf8ByteSize) after.toList).map (⟨start, lexeme⟩ :: ·) := by
  rw [String.toList_append]
  cases lexeme with
  | number text =>
    obtain ⟨hliteral, hstop⟩ := h
    have hsize : text.utf8ByteSize = text.toList.length := by
      apply utf8ByteSize_of_ascii
      intro c hc
      have hpart := isNumberPart_iff_toNat.mp (hliteral.isNumberPart c hc)
      omega
    rw [Lexeme.text, scan_number hliteral hstop, hsize]
  | name text =>
    obtain ⟨hname, hstop⟩ := h
    have hsize : text.utf8ByteSize = text.toList.length :=
      utf8ByteSize_of_ascii fun c hc => toNat_lt_of_isNamePart (isNamePart_of_isName hname c hc)
    rw [Lexeme.text, scan_name hname hstop, hsize]
  | operator op =>
    have hsize : op.char.toString.utf8ByteSize = 1 := by cases op <;> rfl
    have hlist : op.char.toString.toList = [op.char] := String.toList_singleton op.char
    rw [Lexeme.text, hlist, hsize, List.singleton_append, scan_single (ofChar?_char op)]
  | opening => exact scan_single rfl start after.toList
  | closing => exact scan_single rfl start after.toList
  | comma => exact scan_single rfl start after.toList

theorem joined_append (spaced : List SpacedLexeme) (tail after : String) :
    joined spaced (tail ++ after) = joined spaced tail ++ after := by
  induction spaced with
  | nil => rfl
  | cons first others ih => simp only [joined, ih, String.append_assoc]

/-- The scanner goes along lexemes with their gaps, each of which ends before what follows. -/
theorem scan_joined {spaced : List SpacedLexeme} {rest : String} (h : Maximal rest spaced)
    (start : Nat) :
    Lexeme.scan start (joined spaced rest).toList =
      (Lexeme.scan (start + (joined spaced "").utf8ByteSize) rest.toList).map
        (placed start spaced ++ ·) := by
  induction spaced generalizing start with
  | nil =>
    rw [joined, joined, String.utf8ByteSize_empty, Nat.add_zero]
    cases Lexeme.scan start rest.toList <;> rfl
  | cons first others ih =>
    obtain ⟨hfirst, hothers⟩ := h
    have hsize : start + (joined (first :: others) "").utf8ByteSize =
        start + first.gap.utf8ByteSize + first.lexeme.text.utf8ByteSize +
          (joined others "").utf8ByteSize := by
      rw [joined, String.utf8ByteSize_append, String.utf8ByteSize_append]
      omega
    rw [joined, scan_blanks first.blank, scan_lexeme hfirst, ih hothers, hsize]
    cases Lexeme.scan _ rest.toList <;> rfl

/-- A character is a lexeme by itself exactly if it is an operator, a bracket or a comma. -/
theorem ofChar?_eq_none_iff {c : Char} :
    Lexeme.ofChar? c = none ↔ c ∉ ['+', '-', '*', '/', '^', '(', ')', ','] := by
  unfold Lexeme.ofChar? InfixOperator.ofChar?
  split
  iterate 3 simp
  split <;> simp_all

/-- The scanner stops at an obstacle. -/
theorem scan_obstacle {text : String} {cause : SyntaxCause} (h : Obstacle text cause)
    (start : Nat) : Lexeme.scan start text.toList = .error ⟨start, cause⟩ := by
  cases h with
  | @unknown c rest hblank hnumber hname hsingle =>
    have hlist : (c.toString ++ rest).toList = c :: rest.toList := by
      rw [String.toList_append, Char.toString, String.toList_singleton, List.singleton_append]
    rw [hlist, Lexeme.scan, if_neg (by simp [hblank]), if_neg (by simp [hnumber]),
      if_neg (by simp [hname])]
    simp only [ofChar?_eq_none_iff.mpr hsingle]
  | @malformed run rest hne hparts hstop hliteral =>
    obtain ⟨c, cs, hlist⟩ := List.exists_cons_of_ne_nil (mt String.toList_eq_nil_iff.mp hne)
    have hnumber : Lexeme.isNumber run.toList = false := by
      rw [Bool.eq_false_iff, ne_eq, isNumber_iff_isLiteral hparts, String.ofList_toList]
      exact hliteral
    rw [hlist] at hparts hnumber
    obtain ⟨hc, hcs⟩ := List.forall_mem_cons.mp hparts
    rw [String.toList_append, hlist, List.cons_append, Lexeme.scan,
      if_neg (by simp [isBlank_eq_false_of_isNumberPart hc]), if_pos hc,
      takeWhile_append_of_stops hcs hstop, if_neg (by simp [hnumber]), ← hlist,
      String.ofList_toList]

/-! ## Every text splits up to its end or an obstacle -/

theorem text_of_ofChar? {c : Char} {lexeme : Lexeme} (h : Lexeme.ofChar? c = some lexeme) :
    lexeme.text = c.toString ∧ ∀ after, lexeme.EndsBefore after := by
  unfold Lexeme.ofChar? at h
  split at h
  iterate 3
    cases h
    exact ⟨rfl, fun _ => trivial⟩
  obtain ⟨op, hop, rfl⟩ := Option.map_eq_some_iff.mp h
  exact ⟨congrArg Char.toString (char_of_ofChar? hop), fun _ => trivial⟩

theorem eq_toString_append {text : String} {c : Char} {cs : List Char} (h : text.toList = c :: cs) :
    text = c.toString ++ String.ofList cs := by
  rw [← @String.ofList_toList text, h]
  exact @String.ofList_append [c] cs

/-- Where no white space is, a lexeme begins or an obstacle does. -/
theorem exists_lexeme_or_obstacle {c : Char} (hblank : isBlank c = false) (cs : List Char) :
    (∃ (lexeme : Lexeme) (after : String), String.ofList (c :: cs) = lexeme.text ++ after ∧
      lexeme.EndsBefore after) ∨ ∃ cause, Obstacle (String.ofList (c :: cs)) cause := by
  -- A run of characters of a class, with what is left behind it.
  have hrun : ∀ p : Char → Bool, String.ofList (c :: cs) =
      String.ofList (c :: cs.takeWhile p) ++ String.ofList (cs.dropWhile p) := by
    intro p
    rw [← String.ofList_append, List.cons_append, List.takeWhile_append_dropWhile]
  have hstop : ∀ p : Char → Bool, Stops p (String.ofList (cs.dropWhile p)).toList := by
    intro p
    rw [String.toList_ofList]
    exact stops_dropWhile p cs
  by_cases hnumber : Lexeme.isNumberPart c = true
  · rw [hrun Lexeme.isNumberPart]
    by_cases hliteral : IsLiteral (String.ofList (c :: cs.takeWhile Lexeme.isNumberPart))
    · exact Or.inl ⟨.number _, _, rfl, hliteral, hstop _⟩
    · refine Or.inr ⟨_, .malformed ?_ ?_ (hstop _) hliteral⟩
      · simp [← String.toList_eq_nil_iff]
      · rw [String.toList_ofList]
        exact forall_mem_cons_takeWhile hnumber cs
  by_cases hname : isNameStart c = true
  · have hisName : isName (String.ofList (c :: cs.takeWhile isNamePart)) = true := by
      simp [isName, hname]
    exact Or.inl ⟨.name _, _, hrun isNamePart, hisName, hstop _⟩
  -- Any other character stands by itself.
  rw [eq_toString_append String.toList_ofList]
  cases hsingle : Lexeme.ofChar? c with
  | some lexeme =>
    obtain ⟨htext, hends⟩ := text_of_ofChar? hsingle
    exact Or.inl ⟨lexeme, _, by rw [htext], hends _⟩
  | none =>
    exact Or.inr ⟨_, .unknown hblank (Bool.eq_false_iff.mpr hnumber) (Bool.eq_false_iff.mpr hname)
      (ofChar?_eq_none_iff.mp hsingle)⟩

/-- A lexeme has a first character, which is not blank. -/
theorem Lexeme.EndsBefore.exists_first {lexeme : Lexeme} {after : String}
    (h : lexeme.EndsBefore after) :
    ∃ c rest, lexeme.text = c.toString ++ rest ∧ isBlank c = false := by
  cases lexeme with
  | number text =>
    obtain ⟨digit, hdigit, -⟩ := h.1.digit
    obtain ⟨c, cs, hlist⟩ := List.exists_cons_of_ne_nil (List.ne_nil_of_mem hdigit)
    have hpart := h.1.isNumberPart c (by simp [hlist])
    exact ⟨c, _, eq_toString_append hlist, isBlank_eq_false_of_isNumberPart hpart⟩
  | name text =>
    obtain ⟨c, cs, hlist, hstart, -⟩ := exists_cons_of_isName h.1
    exact ⟨c, _, eq_toString_append hlist, isBlank_eq_false_of_isNameStart hstart⟩
  | operator op => exact ⟨op.char, "", String.append_empty.symm, by cases op <;> decide⟩
  | opening => exact ⟨'(', "", rfl, by decide⟩
  | closing => exact ⟨')', "", rfl, by decide⟩
  | comma => exact ⟨',', "", rfl, by decide⟩

theorem Lexeme.EndsBefore.size_pos {lexeme : Lexeme} {after : String}
    (h : lexeme.EndsBefore after) : 0 < lexeme.text.utf8ByteSize := by
  obtain ⟨c, rest, heq, -⟩ := h.exists_first
  have hsize : c.toString.utf8ByteSize = c.utf8Size := String.utf8ByteSize_singleton
  have hpos := c.utf8Size_pos
  rw [heq, String.utf8ByteSize_append, hsize]
  omega

/-- An obstacle begins with a character that is not blank. -/
theorem Obstacle.exists_first {text : String} {cause : SyntaxCause} (h : Obstacle text cause) :
    ∃ c rest, text = c.toString ++ rest ∧ isBlank c = false := by
  cases h with
  | unknown hblank => exact ⟨_, _, rfl, hblank⟩
  | @malformed run rest hne hparts =>
    obtain ⟨c, cs, hlist⟩ := List.exists_cons_of_ne_nil (mt String.toList_eq_nil_iff.mp hne)
    have hpart := hparts c (by simp [hlist])
    refine ⟨c, String.ofList cs ++ rest, ?_, isBlank_eq_false_of_isNumberPart hpart⟩
    rw [← String.append_assoc, ← eq_toString_append hlist]

/-- Every text is made of lexemes and white space up to its end or up to an obstacle. -/
theorem exists_joined (text : String) :
    ∃ spaced tail after, text = joined spaced (tail ++ after) ∧ isBlankText tail = true ∧
      Maximal (tail ++ after) spaced ∧ (after = "" ∨ ∃ cause, Obstacle after cause) := by
  -- The induction is on the size of the text: a lexeme takes at least one byte of it.
  induction hsize : text.utf8ByteSize using Nat.strong_induction_on generalizing text with
  | _ size ih =>
    subst hsize
    let gap := String.ofList (text.toList.takeWhile isBlank)
    have hgap : isBlankText gap = true := by
      rw [isBlankText, String.toList_ofList]
      exact List.all_takeWhile
    have hsplit : text = gap ++ String.ofList (text.toList.dropWhile isBlank) := by
      rw [← String.ofList_append, List.takeWhile_append_dropWhile, String.ofList_toList]
    rcases hrest : text.toList.dropWhile isBlank with _ | ⟨c, cs⟩
    · refine ⟨[], gap, "", ?_, hgap, trivial, Or.inl rfl⟩
      rw [hrest] at hsplit
      exact hsplit
    rw [hrest] at hsplit
    have hblank : isBlank c = false := by
      have hstops := stops_dropWhile isBlank text.toList
      rw [hrest] at hstops
      exact hstops c rfl
    rcases exists_lexeme_or_obstacle hblank cs with ⟨lexeme, after, heq, hends⟩ | ⟨cause, hobstacle⟩
    · have hless : after.utf8ByteSize < text.utf8ByteSize := by
        have hpos := hends.size_pos
        rw [hsplit, heq, String.utf8ByteSize_append, String.utf8ByteSize_append]
        omega
      obtain ⟨spaced, tail, rest, rfl, htail, hmaximal, hend⟩ := ih _ hless after rfl
      refine ⟨⟨gap, hgap, lexeme⟩ :: spaced, tail, rest, ?_, htail, ⟨hends, hmaximal⟩, hend⟩
      rw [joined, ← heq]
      exact hsplit
    · exact ⟨[], gap, _, hsplit, hgap, trivial, Or.inr ⟨cause, hobstacle⟩⟩

/-! ## What is found in a text -/

section

variable {text before after : String} {lexemes : List PlacedLexeme}

theorem exists_splits (text : String) :
    ∃ before after lexemes, text = before ++ after ∧ Splits before after lexemes ∧
      (after = "" ∨ ∃ cause, Obstacle after cause) := by
  obtain ⟨spaced, tail, after, rfl, htail, hmaximal, hend⟩ := exists_joined text
  exact ⟨joined spaced tail, after, placed 0 spaced, joined_append spaced tail after,
    ⟨spaced, tail, htail, rfl, rfl, hmaximal⟩, hend⟩

/-- The lexemes of a text are those that it splits into and those of the rest. -/
theorem Splits.ofText (h : Splits before after lexemes) :
    Lexeme.ofText (before ++ after) =
      (Lexeme.scan before.utf8ByteSize after.toList).map (lexemes ++ ·) := by
  obtain ⟨spaced, tail, htail, rfl, rfl, hmaximal⟩ := h
  have hsize : (joined spaced tail).utf8ByteSize =
      0 + (joined spaced "").utf8ByteSize + tail.utf8ByteSize := by
    rw [Nat.zero_add, ← String.utf8ByteSize_append, ← joined_append, String.empty_append]
  rw [Lexeme.ofText, ← joined_append, scan_joined hmaximal, scan_blanks htail, hsize]

theorem Splits.ofText_end (h : Splits text "" lexemes) : Lexeme.ofText text = .ok lexemes := by
  have hscan := h.ofText
  rw [String.append_empty, String.toList_empty, Lexeme.scan] at hscan
  rw [hscan, Except.map, List.append_nil]

theorem Splits.ofText_obstacle (h : Splits before after lexemes) {cause : SyntaxCause}
    (hobstacle : Obstacle after cause) :
    Lexeme.ofText (before ++ after) = .error ⟨before.utf8ByteSize, cause⟩ := by
  rw [h.ofText, scan_obstacle hobstacle]
  rfl

/-- The lexemes that are found in a text are the ones that it splits into. -/
theorem ofText_eq_ok_iff : Lexeme.ofText text = .ok lexemes ↔ Splits text "" lexemes := by
  constructor
  · intro h
    obtain ⟨before, after, found, rfl, hsplits, rfl | ⟨cause, hobstacle⟩⟩ := exists_splits text
    · rw [String.append_empty] at h ⊢
      rw [hsplits.ofText_end] at h
      cases h
      exact hsplits
    · rw [hsplits.ofText_obstacle hobstacle] at h
      cases h
  · exact Splits.ofText_end

/-- A text has a fault exactly where it splits up to an obstacle. -/
theorem ofText_eq_error_iff {fault : SyntaxFault} :
    Lexeme.ofText text = .error fault ↔
      ∃ before after lexemes, text = before ++ after ∧ before.utf8ByteSize = fault.position ∧
        Splits before after lexemes ∧ Obstacle after fault.cause := by
  constructor
  · intro h
    obtain ⟨before, after, found, rfl, hsplits, rfl | ⟨cause, hobstacle⟩⟩ := exists_splits text
    · rw [String.append_empty] at h
      rw [hsplits.ofText_end] at h
      cases h
    · rw [hsplits.ofText_obstacle hobstacle] at h
      cases h
      exact ⟨before, after, found, rfl, rfl, hsplits, hobstacle⟩
  · rintro ⟨before, after, found, rfl, hposition, hsplits, hobstacle⟩
    rw [hsplits.ofText_obstacle hobstacle, hposition]

/-! ## Where lexemes and faults are -/

/-- The text reads on with each lexeme at its position, and the lexeme ends there. -/
theorem exists_of_mem_placed {spaced : List SpacedLexeme} {rest : String} {start : Nat}
    {lexeme : PlacedLexeme} (hmaximal : Maximal rest spaced) (h : lexeme ∈ placed start spaced) :
    ∃ before after, joined spaced rest = before ++ lexeme.lexeme.text ++ after ∧
      lexeme.position = start + before.utf8ByteSize ∧ lexeme.lexeme.EndsBefore after := by
  induction spaced generalizing start with
  | nil => cases h
  | cons first others ih =>
    obtain ⟨hfirst, hothers⟩ := hmaximal
    rcases List.mem_cons.mp h with rfl | h
    · exact ⟨first.gap, _, String.append_assoc.symm, rfl, hfirst⟩
    · obtain ⟨before, after, heq, hposition, hends⟩ := ih hothers h
      refine ⟨first.gap ++ (first.lexeme.text ++ before), after, ?_, ?_, hends⟩
      · simp only [joined, heq, String.append_assoc]
      · rw [hposition, String.utf8ByteSize_append, String.utf8ByteSize_append]
        omega

/-- Each lexeme starts behind the end of the one before. -/
theorem pairwise_placed {spaced : List SpacedLexeme} {rest : String}
    (hmaximal : Maximal rest spaced) (start : Nat) :
    (placed start spaced).Pairwise fun first second => first.position < second.position := by
  induction spaced generalizing start with
  | nil => exact List.Pairwise.nil
  | cons first others ih =>
    obtain ⟨hfirst, hothers⟩ := hmaximal
    refine List.Pairwise.cons ?_ (ih hothers _)
    intro second hsecond
    obtain ⟨before, -, -, hposition, -⟩ := exists_of_mem_placed hothers hsecond
    have hpos := hfirst.size_pos
    rw [hposition]
    show start + first.gap.utf8ByteSize < _
    omega

/-- A lexeme that ends before what follows it does so where less follows. -/
theorem Lexeme.EndsBefore.of_append {lexeme : Lexeme} {after rest : String}
    (h : lexeme.EndsBefore (after ++ rest)) : lexeme.EndsBefore after := by
  have hstops : ∀ p : Char → Bool, Stops p (after ++ rest).toList → Stops p after.toList := by
    intro p hstop c hc
    rw [String.toList_append] at hstop
    exact hstop c (List.mem_head?_append_of_mem_head? hc)
  cases lexeme with
  | number text => exact ⟨h.1, hstops _ h.2⟩
  | name text => exact ⟨h.1, hstops _ h.2⟩
  | _ => trivial

/-- The beginning of a text up to which it splits is itself made of the same lexemes. -/
theorem Splits.ofText_before (h : Splits before after lexemes) :
    Lexeme.ofText before = .ok lexemes := by
  obtain ⟨spaced, tail, htail, rfl, rfl, hmaximal⟩ := h
  refine Splits.ofText_end ⟨spaced, tail, htail, rfl, rfl, ?_⟩
  rw [String.append_empty]
  clear htail
  induction spaced with
  | nil => trivial
  | cons first others ih =>
    obtain ⟨hfirst, hothers⟩ := hmaximal
    rw [joined_append] at hfirst
    exact ⟨hfirst.of_append, ih hothers⟩

/-- Faults lie behind what has been read. -/
theorem le_position_of_scan_error {start : Nat} {fault : SyntaxFault}
    (h : Lexeme.scan start text.toList = .error fault) : start ≤ fault.position := by
  obtain ⟨spaced, tail, after, rfl, htail, hmaximal, rfl | ⟨cause, hobstacle⟩⟩ := exists_joined text
  · rw [scan_joined hmaximal, scan_blanks htail, String.toList_empty, Lexeme.scan] at h
    cases h
  · rw [scan_joined hmaximal, scan_blanks htail, scan_obstacle hobstacle] at h
    cases h
    show start ≤ start + _ + _
    omega

/-- **Splitting a text loses nothing and makes each lexeme as long as it can be.** A text is
accepted exactly when it is made of maximal lexemes. Then it is put together again from the lexemes
and the white space in the gaps that their positions leave; the positions rise, and at each of them,
counted in bytes, stands its lexeme, well formed and not continued by what follows. A text that is
not accepted has its fault where an obstacle stands: what comes before it is accepted, and no longer
beginning of the text is made of maximal lexemes. -/
theorem ofText_lossless (text : String) :
    (∀ lexemes, Lexeme.ofText text = .ok lexemes ↔ Splits text "" lexemes) ∧
    (∀ lexemes, Lexeme.ofText text = .ok lexemes →
      (∃ spaced tail, isBlankText tail = true ∧ text = joined spaced tail ∧
        lexemes = placed 0 spaced) ∧
      (lexemes.Pairwise fun first second => first.position < second.position) ∧
      ∀ lexeme ∈ lexemes, ∃ before after, text = before ++ lexeme.lexeme.text ++ after ∧
        before.utf8ByteSize = lexeme.position ∧ lexeme.lexeme.EndsBefore after) ∧
    ∀ fault, Lexeme.ofText text = .error fault →
      ∃ before after, text = before ++ after ∧ before.utf8ByteSize = fault.position ∧
        Obstacle after fault.cause ∧
        (∃ lexemes, Lexeme.ofText before = .ok lexemes ∧ Splits before after lexemes) ∧
        ∀ before' after' lexemes, text = before' ++ after' → Splits before' after' lexemes →
          before'.utf8ByteSize ≤ fault.position := by
  refine ⟨fun lexemes => ofText_eq_ok_iff, ?_, ?_⟩
  · intro lexemes h
    obtain ⟨spaced, tail, htail, rfl, rfl, hmaximal⟩ := ofText_eq_ok_iff.mp h
    rw [String.append_empty] at hmaximal
    refine ⟨⟨spaced, tail, htail, rfl, rfl⟩, pairwise_placed hmaximal 0, ?_⟩
    intro lexeme hlexeme
    obtain ⟨before, after, heq, hposition, hends⟩ := exists_of_mem_placed hmaximal hlexeme
    exact ⟨before, after, heq, by rw [hposition, Nat.zero_add], hends⟩
  · intro fault h
    obtain ⟨before, after, lexemes, rfl, hposition, hsplits, hobstacle⟩ := ofText_eq_error_iff.mp h
    refine ⟨before, after, rfl, hposition, hobstacle, ⟨lexemes, hsplits.ofText_before, hsplits⟩, ?_⟩
    intro before' after' lexemes' heq hsplits'
    rw [heq, hsplits'.ofText, map_eq_error_iff] at h
    exact le_position_of_scan_error h

/-- A formula with white space of two and of three bytes, and one that goes on with digits and
points that are no literal. -/
theorem ofText_lossless_wide_spaces :
    (∃ lexemes, Lexeme.ofText "\u3000fee *\u00a0.5" = .ok lexemes ∧
      lexemes.map PlacedLexeme.position = [3, 7, 10] ∧
      ∀ lexeme ∈ lexemes, ∃ before after,
        "\u3000fee *\u00a0.5" = before ++ lexeme.lexeme.text ++ after ∧
        before.utf8ByteSize = lexeme.position ∧ lexeme.lexeme.EndsBefore after) ∧
    ∃ fault, Lexeme.ofText "\u3000fee * 1.2.3" = .error fault ∧ fault.position = 9 ∧
      ∃ before after, "\u3000fee * 1.2.3" = before ++ after ∧
        before.utf8ByteSize = 9 ∧ Obstacle after (.malformedNumber "1.2.3") := by
  constructor
  · have h : Lexeme.ofText "\u3000fee *\u00a0.5" =
        .ok [⟨3, .name "fee"⟩, ⟨7, .operator .multiply⟩, ⟨10, .number ".5"⟩] :=
      toOption_eq_some_iff.mp (by decide +kernel)
    exact ⟨_, h, rfl, ((ofText_lossless _).2.1 _ h).2.2⟩
  · have h : Lexeme.ofText "\u3000fee * 1.2.3" = .error ⟨9, .malformedNumber "1.2.3"⟩ := by
      decide +kernel
    obtain ⟨before, after, heq, hposition, hobstacle, -⟩ := (ofText_lossless _).2.2 _ h
    exact ⟨_, h, rfl, before, after, heq, hposition, hobstacle⟩

end

end Tariff
