/-
# Texts as numbers

A text counts as a number if it is a plain numeral between blanks: an optional sign, digits of
ASCII, and perhaps a point with more digits behind it. Two readers have to agree on that. The
pattern takes digits of any script and no separators, the reader of decimals takes separators and
exponents and no other script.

* `trimBlanks_of_blanks` and `exists_blanks` : blanks are cut off on both sides;
* `isPlainNumber_characters` and `exists_plainNumeral` : what the pattern takes;
* `ParameterValue.textToDecimal?_of_isWritten` : the number of a text;
* `resolve_text` : which texts count as numbers, and as which.
-/
import Tariff.Parameter.Bag
import Tariff.Proofs.Decimal.Rounded
import Tariff.Proofs.Decimal.Scientific

namespace Tariff

open Decimal (PlainNumeral Representable)

/-! ## Blanks -/

theorem trimBlanks_of_blanks {front core back : List Char} (hfront : ∀ c ∈ front, isBlank c = true)
    (hback : ∀ c ∈ back, isBlank c = true) (hcore : ∀ c ∈ core, isBlank c = false)
    (hne : core ≠ []) : trimBlanks (front ++ core ++ back) = core := by
  have hkeep : ∀ {first : List Char}, first ≠ [] → (∀ c ∈ first, isBlank c = false) →
      ∀ rest, (first ++ rest).dropWhile isBlank = first ++ rest := by
    intro first hfirst hnone rest
    obtain ⟨c, others, rfl⟩ := List.exists_cons_of_ne_nil hfirst
    exact List.dropWhile_cons_of_neg (by rw [hnone c List.mem_cons_self]; decide)
  have hreverse : ∀ c ∈ back.reverse, isBlank c = true := fun c hc =>
    hback c (List.mem_reverse.mp hc)
  have hcore' : ∀ c ∈ core.reverse, isBlank c = false := fun c hc =>
    hcore c (List.mem_reverse.mp hc)
  have hlast := hkeep (List.reverse_ne_nil_iff.mpr hne) hcore' []
  rw [List.append_nil] at hlast
  rw [trimBlanks, List.append_assoc, List.dropWhile_append_of_pos hfront, hkeep hne hcore,
    List.reverse_append, List.dropWhile_append_of_pos hreverse, hlast, List.reverse_reverse]

/-- Nothing but blanks is cut off. -/
theorem exists_blanks (cs : List Char) : ∃ front back, (∀ c ∈ front, isBlank c = true) ∧
    (∀ c ∈ back, isBlank c = true) ∧ cs = front ++ trimBlanks cs ++ back := by
  let rest := cs.dropWhile isBlank
  refine ⟨cs.takeWhile isBlank, (rest.reverse.takeWhile isBlank).reverse, ?_, ?_, ?_⟩
  · exact fun c hc => List.mem_takeWhile_imp hc
  · exact fun c hc => List.mem_takeWhile_imp (List.mem_reverse.mp hc)
  · have hrest : trimBlanks cs ++ (rest.reverse.takeWhile isBlank).reverse = rest := by
      rw [trimBlanks, ← List.reverse_append, List.takeWhile_append_dropWhile, List.reverse_reverse]
    rw [List.append_assoc, hrest, List.takeWhile_append_dropWhile]

/-! ## The pattern -/

/-- Signs and points are not digits of any script. -/
theorem isDecimalDigit_false {c : Char} (h : c = '.' ∨ c = '_' ∨ c = '+' ∨ c = '-') :
    isDecimalDigit c = false := by
  rcases h with rfl | rfl | rfl | rfl <;> decide

namespace Decimal.PlainNumeral

variable (n : PlainNumeral)

theorem mem_characters {c : Char} (hc : c ∈ n.characters) :
    c.isDigit = true ∨ c = '.' ∨ c = '+' ∨ c = '-' := by
  obtain ⟨hwhole, hfraction⟩ := List.forall_mem_append.mp n.digits
  have hcases := n.sign_mem
  simp only [List.mem_cons, List.not_mem_nil, or_false] at hcases
  rcases List.mem_append.mp hc with hc | hc
  · rcases hcases with h | h | h
    · exact absurd (h ▸ hc) List.not_mem_nil
    · exact Or.inr (Or.inr (Or.inl (List.mem_singleton.mp (h ▸ hc))))
    · exact Or.inr (Or.inr (Or.inr (List.mem_singleton.mp (h ▸ hc))))
  · rcases List.mem_append.mp hc with hc | hc
    · exact Or.inl (hwhole c hc)
    · split at hc
      · exact absurd hc List.not_mem_nil
      · rcases List.mem_cons.mp hc with rfl | hc
        · exact Or.inr (Or.inl rfl)
        · exact Or.inl (hfraction c hc)

theorem characters_ne : n.characters ≠ [] := by
  simp [characters, unsigned, n.whole_ne]

theorem isBlank_of_mem {c : Char} (hc : c ∈ n.characters) : isBlank c = false := by
  rcases n.mem_characters hc with hdigit | rfl | rfl | rfl
  · exact isBlank_eq_false_of_isDigit hdigit
  all_goals rfl

/-- The pattern finds the digits of a numeral before the point and behind it. -/
theorem span_unsigned :
    n.unsigned.takeWhile isDecimalDigit = n.whole ∧
      n.unsigned.dropWhile isDecimalDigit = if n.fraction = [] then [] else '.' :: n.fraction := by
  have hwhole : ∀ c ∈ n.whole, isDecimalDigit c = true := fun c hc =>
    isDecimalDigit_of_isDigit (n.digits c (List.mem_append_left _ hc))
  have hpoint : ¬ isDecimalDigit '.' = true := by
    rw [isDecimalDigit_false (Or.inl rfl)]
    exact Bool.false_ne_true
  rw [unsigned, List.takeWhile_append_of_pos hwhole, List.dropWhile_append_of_pos hwhole]
  split
  · exact ⟨List.append_nil _, rfl⟩
  · rw [List.takeWhile_cons_of_neg hpoint, List.dropWhile_cons_of_neg hpoint, List.append_nil]
    exact ⟨rfl, rfl⟩

theorem isPlainNumber_characters : isPlainNumber n.characters = true := by
  obtain ⟨htake, hdrop⟩ := n.span_unsigned
  have hfraction : n.fraction.all isDecimalDigit = true := List.all_eq_true.mpr fun c hc =>
    isDecimalDigit_of_isDigit (n.digits c (List.mem_append_right _ hc))
  have hbody : isPlainNumber ('+' :: n.unsigned) = true := by
    simp only [isPlainNumber, htake, hdrop, List.isEmpty_eq_false_iff.mpr n.whole_ne]
    by_cases hnone : n.fraction = []
    · rw [if_pos hnone]
      rfl
    · rw [if_neg hnone]
      simp [hnone, hfraction]
  have hcases := n.sign_mem
  simp only [List.mem_cons, List.not_mem_nil, or_false] at hcases
  unfold characters
  rcases hcases with h | h | h
  · obtain ⟨c, rest, hunsigned, hplus, hminus⟩ := n.writes.exists_cons
    rw [h, List.nil_append, hunsigned]
    rw [hunsigned] at hbody
    unfold isPlainNumber
    split
    · next heq => exact absurd (List.cons.inj heq).1 hplus
    · next heq => exact absurd (List.cons.inj heq).1 hminus
    · exact hbody
  · rw [h]
    exact hbody
  · rw [h]
    exact hbody

end Decimal.PlainNumeral

/-- What the pattern takes: a sign, and digits of any script with a point between them or not. -/
theorem exists_parts {cs : List Char} (h : isPlainNumber cs = true) :
    ∃ sign whole fraction, sign ∈ [[], ['+'], ['-']] ∧ whole ≠ [] ∧
      (∀ c ∈ whole ++ fraction, isDecimalDigit c = true) ∧
      cs = sign ++ (whole ++ if fraction = [] then [] else '.' :: fraction) := by
  have hsplit : ∃ sign unsigned, sign ∈ [[], ['+'], ['-']] ∧ cs = sign ++ unsigned ∧
      isPlainNumber ('+' :: unsigned) = true := by
    unfold isPlainNumber at h
    split at h
    · exact ⟨['+'], _, by simp, rfl, h⟩
    · exact ⟨['-'], _, by simp, rfl, h⟩
    · exact ⟨[], cs, by simp, rfl, h⟩
  obtain ⟨sign, unsigned, hsign, rfl, hbody⟩ := hsplit
  have hjoin := List.takeWhile_append_dropWhile (p := isDecimalDigit) (l := unsigned)
  have hwhole : ∀ c ∈ unsigned.takeWhile isDecimalDigit, isDecimalDigit c = true := fun c hc =>
    List.mem_takeWhile_imp hc
  simp only [isPlainNumber] at hbody
  rw [Bool.and_eq_true, Bool.not_eq_true', List.isEmpty_eq_false_iff] at hbody
  obtain ⟨hsome, hrest⟩ := hbody
  split at hrest
  · next hnone =>
    rw [hnone, List.append_nil] at hjoin
    refine ⟨sign, unsigned.takeWhile isDecimalDigit, [], hsign, hsome, by simpa using hwhole, ?_⟩
    rw [if_pos rfl, List.append_nil, hjoin]
  · next fraction hpoint =>
    rw [Bool.and_eq_true, Bool.not_eq_true', List.isEmpty_eq_false_iff, List.all_eq_true] at hrest
    refine ⟨sign, unsigned.takeWhile isDecimalDigit, fraction, hsign, hsome,
      List.forall_mem_append.mpr ⟨hwhole, hrest.2⟩, ?_⟩
    rw [if_neg hrest.1, ← hpoint, hjoin]
  · exact absurd hrest Bool.false_ne_true

/-- What the pattern takes holds no mark of an exponent. -/
theorem any_mark_of_isPlainNumber {cs : List Char} (h : isPlainNumber cs = true) :
    cs.any (fun c => c == 'e' || c == 'E') = false := by
  obtain ⟨sign, whole, fraction, hsign, -, hdigits, rfl⟩ := exists_parts h
  have hdigit : ∀ c, isDecimalDigit c = true → ¬ (c == 'e' || c == 'E') = true := by
    intro c hc hmark
    rw [Bool.or_eq_true, beq_iff_eq, beq_iff_eq] at hmark
    rcases hmark with rfl | rfl <;> revert hc <;> decide
  simp only [List.mem_cons, List.not_mem_nil, or_false] at hsign
  rw [List.any_eq_false]
  intro c hc
  rcases List.mem_append.mp hc with hc | hc
  · rcases hsign with rfl | rfl | rfl
    · exact absurd hc List.not_mem_nil
    · obtain rfl := List.mem_singleton.mp hc
      decide
    · obtain rfl := List.mem_singleton.mp hc
      decide
  · rcases List.mem_append.mp hc with hc | hc
    · exact hdigit c (hdigits c (List.mem_append_left _ hc))
    · split at hc
      · exact absurd hc List.not_mem_nil
      · rcases List.mem_cons.mp hc with rfl | hc
        · decide
        · exact hdigit c (hdigits c (List.mem_append_right _ hc))

/-- What the pattern takes is a plain numeral, if all its digits are those of ASCII. -/
theorem exists_plainNumeral {cs : List Char} (h : isPlainNumber cs = true)
    (hascii : ∀ c ∈ cs, isDecimalDigit c = true → c.isDigit = true) :
    ∃ n : PlainNumeral, n.characters = cs := by
  obtain ⟨sign, whole, fraction, hsign, hwhole, hdigits, rfl⟩ := exists_parts h
  refine ⟨⟨sign, whole, fraction, hsign, hwhole, fun c hc => hascii c ?_ (hdigits c hc)⟩, rfl⟩
  refine List.mem_append_right _ ?_
  rcases List.mem_append.mp hc with hc | hc
  · exact List.mem_append_left _ hc
  · rw [if_neg (List.ne_nil_of_mem hc)]
    exact List.mem_append_right _ (List.mem_cons_of_mem _ hc)

/-! ## Texts -/

/-- A text writes a numeral, with nothing but blanks around it. -/
def Decimal.PlainNumeral.IsWritten (n : PlainNumeral) (s : String) : Prop :=
  ∃ front back, (∀ c ∈ front, isBlank c = true) ∧ (∀ c ∈ back, isBlank c = true) ∧
    s.toList = front ++ n.characters ++ back

namespace ParameterValue

/-- A numeral has no exponent, so it is read as it is or not at all. -/
theorem ofText_of_isPlainNumber {cs : List Char} (h : isPlainNumber cs = true) :
    Decimal.ofText (String.ofList cs) = Decimal.readNumeral cs := by
  have hmark := any_mark_of_isPlainNumber h
  rw [Decimal.ofText, String.toList_ofList]
  cases hread : Decimal.readNumeral cs with
  | ok a => rfl
  | error fault => exact if_neg (by rw [hmark]; exact Bool.false_ne_true)

theorem trimBlanks_of_isWritten {n : PlainNumeral} {s : String} (h : n.IsWritten s) :
    trimBlanks s.toList = n.characters := by
  obtain ⟨front, back, hfront, hback, htext⟩ := h
  rw [htext]
  exact trimBlanks_of_blanks hfront hback (fun _ => n.isBlank_of_mem) n.characters_ne

theorem textToDecimal?_of_isWritten {n : PlainNumeral} {s : String} (h : n.IsWritten s) :
    textToDecimal? s = (Decimal.readNumeral n.characters).toOption := by
  rw [textToDecimal?, trimBlanks_of_isWritten h, if_pos n.isPlainNumber_characters,
    ofText_of_isPlainNumber n.isPlainNumber_characters]

/-- A text that counts as a number writes a numeral. -/
theorem exists_isWritten {s : String} {a : Decimal} (h : textToDecimal? s = some a) :
    ∃ n : PlainNumeral, n.IsWritten s := by
  obtain ⟨front, back, hfront, hback, htext⟩ := exists_blanks s.toList
  unfold textToDecimal? at h
  dsimp only at h
  split at h
  · next hpattern =>
    rw [ofText_of_isPlainNumber hpattern] at h
    have hread := toOption_eq_some_iff.mp h
    obtain ⟨n, hn⟩ := exists_plainNumeral hpattern fun c hc hdigit => by
      rcases Decimal.mem_of_readNumeral hread c hc with hascii | hother
      · exact hascii
      · rw [isDecimalDigit_false hother] at hdigit
        contradiction
    exact ⟨n, front, back, hfront, hback, by rw [hn]; exact htext⟩
  · contradiction

end ParameterValue

/-- What a value is resolved to. -/
theorem resolve_of_some {source : ParameterSource} {name : String} {value : ParameterValue}
    (h : source name = some value) :
    resolve source name = match value.toDecimal? with
      | some decimal => .ok decimal
      | none => .error (.notNumeric name value.kind) := by
  unfold resolve
  cases hdecimal : value.toDecimal? <;> simp [h, hdecimal]

/-- **Which texts count as numbers.** A text is resolved if and only if a plain numeral that fits
is written in it, and then as the number of the numeral if a decimal stands for that number, and
otherwise as the nearest one of as many digits as there is room for. Every other text is refused
by its name and type. -/
theorem resolve_text (source : ParameterSource) (name s : String)
    (h : source name = some (.text s)) :
    ((∃ a, resolve source name = .ok a) ↔ ∃ n : PlainNumeral, n.IsWritten s ∧ n.Fits) ∧
    (∀ n : PlainNumeral, n.IsWritten s → n.Fits → ∃ a, resolve source name = .ok a ∧
      (Representable n.value → a.toRat = n.value) ∧
      |a.toRat - n.value| ≤ 1 / 2 / tenPow a.scale) ∧
    ((¬ ∃ n : PlainNumeral, n.IsWritten s ∧ n.Fits) →
      resolve source name = .error (.notNumeric name .text)) := by
  have hresolve := resolve_of_some h
  rw [ParameterValue.toDecimal?, ParameterValue.kind] at hresolve
  -- A numeral that is written is read as it is.
  have hwritten : ∀ n : PlainNumeral, n.IsWritten s →
      (n.Fits ∧ ∃ a, ParameterValue.textToDecimal? s = some a ∧
        (Representable n.value → a.toRat = n.value) ∧
        |a.toRat - n.value| ≤ 1 / 2 / tenPow a.scale) ∨
      (¬ n.Fits ∧ ParameterValue.textToDecimal? s = none) := by
    intro n hn
    rw [ParameterValue.textToDecimal?_of_isWritten hn]
    rcases n.readNumeral_rounded with ⟨hfits, a, ha, hnear, hexact⟩ | ⟨hlarge, fault, hfault⟩
    · exact Or.inl ⟨hfits, a, by rw [ha]; rfl, hexact, hnear⟩
    · exact Or.inr ⟨hlarge, by rw [hfault]; rfl⟩
  have hfound : ∀ a, ParameterValue.textToDecimal? s = some a →
      ∃ n : PlainNumeral, n.IsWritten s ∧ n.Fits := by
    intro a ha
    obtain ⟨n, hn⟩ := ParameterValue.exists_isWritten ha
    rcases hwritten n hn with ⟨hfits, -⟩ | ⟨-, hnone⟩
    · exact ⟨n, hn, hfits⟩
    · rw [hnone] at ha
      contradiction
  have hread : ∀ n : PlainNumeral, n.IsWritten s → n.Fits → ∃ a, resolve source name = .ok a ∧
      (Representable n.value → a.toRat = n.value) ∧
      |a.toRat - n.value| ≤ 1 / 2 / tenPow a.scale := by
    intro n hn hfits
    rcases hwritten n hn with ⟨-, a, ha, hrest⟩ | ⟨hlarge, -⟩
    · exact ⟨a, by rw [hresolve, ha], hrest⟩
    · exact absurd hfits hlarge
  refine ⟨⟨?_, ?_⟩, hread, fun hnone => ?_⟩
  · rintro ⟨a, ha⟩
    rw [hresolve] at ha
    split at ha
    · next b hb => exact hfound b hb
    · contradiction
  · rintro ⟨n, hn, hfits⟩
    obtain ⟨a, ha, -⟩ := hread n hn hfits
    exact ⟨a, ha⟩
  · rw [hresolve]
    split
    · next a ha => exact absurd (hfound a ha) hnone
    · rfl

/-- Blanks around a numeral do not count; underscores and digits of other scripts are refused. -/
theorem resolve_text_padded :
    (∃ a, resolve (fun _ => some (.text "\t-12.50 ")) "rate" = .ok a ∧ a.toRat = -25 / 2) ∧
      resolve (fun _ => some (.text "1_000")) "rate" = .error (.notNumeric "rate" .text) ∧
      resolve (fun _ => some (.text "٣")) "rate" = .error (.notNumeric "rate" .text) := by
  let n : PlainNumeral := ⟨['-'], ['1', '2'], ['5', '0'], by simp, by simp,
    List.all_eq_true.mp (by decide)⟩
  have hwritten : n.IsWritten "\t-12.50 " := ⟨['\t'], [' '],
    List.forall_mem_singleton.mpr rfl, List.forall_mem_singleton.mpr rfl, rfl⟩
  have hvalue : n.value = -25 / 2 := by
    have hdigits : numeralValue ['1', '2'] ['5', '0'] = ((1250 : Nat) : ℚ) / (100 : Nat) := rfl
    show (if ['-'] = ['-'] then -numeralValue ['1', '2'] ['5', '0'] else _) = _
    rw [if_pos rfl, hdigits]
    norm_num
  have hfits : n.Fits := by
    rw [PlainNumeral.Fits, hvalue]
    norm_num
  have hexact : Representable n.value := ⟨⟨true, 125, 1, by decide, by decide⟩, by
    rw [hvalue]
    norm_num [Decimal.toRat, Decimal.signed, tenPow]⟩
  obtain ⟨-, hread, -⟩ := resolve_text (fun _ => some (.text "\t-12.50 ")) "rate" _ rfl
  obtain ⟨a, ha, hsame, -⟩ := hread n hwritten hfits
  exact ⟨⟨a, ha, (hsame hexact).trans hvalue⟩, rfl, rfl⟩

end Tariff
