/-
# Reading written JSON

The lexemes of a written value build a tree with the parts of the value, inside any arrays and
objects that have been opened before. So a value without doubles is read back from its text, on
one line or over several.

* `Builds` : lexemes that build a tree wherever a value is due;
* `Builds.array` and `Builds.object` : the lexemes of items and members, put together;
* `Json.draft` : the tree of a written value;
* `Json.IsExact.ofText_compact` and `Json.IsExact.ofText_pretty` : the tree of a written text;
* `NumberLiteral.value?_ofInt` : the integer of a written literal.
-/
import Tariff.Proofs.Json.Spelling

namespace Tariff

/-! ## From lexemes to trees -/

/-- Lexemes that build a tree wherever a value is due. -/
structure Builds (lexemes : List JsonLexeme) (draft : JsonDraft) : Prop where
  /-- The lexemes do not close an array. -/
  head : ∃ first others, lexemes = first :: others ∧ first ≠ .closeArray
  readValue_append (frames : List JsonDraft.Frame) (rest : List JsonLexeme) :
    JsonDraft.readValue frames (lexemes ++ rest) = JsonDraft.readOn frames draft rest

namespace Builds

open JsonDraft

/-- The lexeme of a value that is neither an array nor an object. -/
theorem null : Builds [.null] .null :=
  ⟨⟨_, _, rfl, by decide⟩, fun frames rest => by rw [List.singleton_append, readValue]⟩

/-- A truth value is built from its word. -/
theorem boolean (value : Bool) : Builds [.boolean value] (.boolean value) :=
  ⟨⟨_, _, rfl, by simp⟩, fun frames rest => by rw [List.singleton_append, readValue]⟩

/-- A number is built from its literal. -/
theorem number (literal : NumberLiteral) : Builds [.number literal] (.number literal) :=
  ⟨⟨_, _, rfl, by simp⟩, fun frames rest => by rw [List.singleton_append, readValue]⟩

/-- A string is built from its literal. -/
theorem text (s : String) :
    Builds [.text (TextLiteral.ofText s)] (.text (TextLiteral.ofText s)) :=
  ⟨⟨_, _, rfl, by simp⟩, fun frames rest => by
    rw [List.singleton_append, readValue, if_neg]
    exact Bool.false_ne_true⟩

/-- The items of an array after others, up to the closing bracket. -/
theorem items {words : List (List JsonLexeme)} {drafts : List JsonDraft}
    (h : List.Forall₂ Builds words drafts) (hwords : words ≠ []) (before : List JsonDraft)
    (frames : List Frame) (rest : List JsonLexeme) :
    readValue (.array before :: frames) ([.comma].intercalate words ++ .closeArray :: rest) =
      readOn frames (.array (before.reverse ++ drafts) none) rest := by
  -- The induction is on the items, after any others.
  induction h generalizing before with
  | nil => exact absurd rfl hwords
  | @cons word draft words drafts hfirst hothers ih =>
    cases hothers with
    | nil =>
      rw [List.intercalate_singleton, hfirst.readValue_append, readOn, List.reverse_cons]
    | @cons word' draft' words' drafts' hsecond hrest =>
      have hnext := ih (List.cons_ne_nil _ _) (draft :: before)
      rw [List.intercalate_cons_cons, List.append_assoc, List.append_assoc,
        hfirst.readValue_append, List.singleton_append, readOn, hnext, List.reverse_cons,
        List.append_assoc, List.singleton_append]

/-- An array is built from its items, with commas between them and brackets around them. -/
theorem array {words : List (List JsonLexeme)} {drafts : List JsonDraft}
    (h : List.Forall₂ Builds words drafts) :
    Builds (.openArray :: ([.comma].intercalate words ++ [.closeArray])) (.array drafts none) := by
  refine ⟨⟨_, _, rfl, by decide⟩, fun frames rest => ?_⟩
  rw [List.cons_append, List.append_assoc, List.singleton_append]
  cases h with
  | nil => rw [List.intercalate_nil, List.nil_append, readValue]
  | @cons word draft words drafts hfirst hothers =>
    have hitems := items (List.Forall₂.cons hfirst hothers) (List.cons_ne_nil _ _) [] frames rest
    obtain ⟨first, others, hword, hfirst'⟩ := hfirst.head
    have hstart : ∃ more, [.comma].intercalate (word :: words) ++ .closeArray :: rest =
        first :: more := by
      rw [hword]
      cases words <;> simp
    obtain ⟨more, hmore⟩ := hstart
    rw [hmore] at hitems ⊢
    rw [readValue, hitems]
    · rfl
    · rintro last hlast
      exact hfirst' (List.cons.inj hlast).1

/-- The members of an object after others, up to the closing brace. -/
theorem members {words : List (TextLiteral × List JsonLexeme)}
    {drafts : List (TextLiteral × JsonDraft)}
    (h : List.Forall₂ (fun word draft => word.1 = draft.1 ∧ Builds word.2 draft.2) words drafts)
    (hwords : words ≠ []) (before : List (TextLiteral × JsonDraft)) (frames : List Frame)
    (rest : List JsonLexeme) :
    readName frames before ([.comma].intercalate
        (words.map fun word => .text word.1 :: .colon :: word.2) ++ .closeObject :: rest) =
      readOn frames (.object (before.reverse ++ drafts) .closed) rest := by
  -- The induction is on the members, after any others.
  induction h generalizing before with
  | nil => exact absurd rfl hwords
  | @cons word draft words drafts hfirst hothers ih =>
    obtain ⟨name, value⟩ := draft
    obtain ⟨hname, hvalue⟩ := hfirst
    dsimp only at hname hvalue
    rw [List.map_cons, hname]
    cases hothers with
    | nil =>
      rw [List.map_nil, List.intercalate_singleton, List.cons_append, List.cons_append, readName,
        hvalue.readValue_append, readOn, List.reverse_cons]
    | @cons word' draft' words' drafts' hsecond hrest =>
      have hnext := ih (List.cons_ne_nil _ _) ((name, value) :: before)
      rw [List.map_cons] at hnext
      rw [List.map_cons, List.intercalate_cons_cons, List.append_assoc, List.append_assoc,
        List.cons_append, List.cons_append, readName, hvalue.readValue_append,
        List.singleton_append, readOn, hnext, List.reverse_cons, List.append_assoc,
        List.singleton_append]

/-- An object is built from its members, each a name with a colon and a value behind it. -/
theorem object {words : List (TextLiteral × List JsonLexeme)}
    {drafts : List (TextLiteral × JsonDraft)}
    (h : List.Forall₂ (fun word draft => word.1 = draft.1 ∧ Builds word.2 draft.2) words drafts) :
    Builds (.openObject :: ([.comma].intercalate
        (words.map fun word => .text word.1 :: .colon :: word.2) ++ [.closeObject]))
      (.object drafts .closed) := by
  refine ⟨⟨_, _, rfl, by decide⟩, fun frames rest => ?_⟩
  rw [List.cons_append, List.append_assoc, List.singleton_append]
  cases h with
  | nil => rw [List.map_nil, List.intercalate_nil, List.nil_append, readValue]
  | @cons word draft words drafts hfirst hothers =>
    have hmembers :=
      members (List.Forall₂.cons hfirst hothers) (List.cons_ne_nil _ _) [] frames rest
    have hstart : ∃ more, [.comma].intercalate
        ((word :: words).map fun word => .text word.1 :: .colon :: word.2) ++
          .closeObject :: rest = .text word.1 :: more := by
      cases words <;> simp
    obtain ⟨more, hmore⟩ := hstart
    rw [hmore] at hmembers ⊢
    rw [readValue, hmembers]
    · rfl
    · rintro last hlast
      exact nomatch hlast

end Builds

/-- A text whose lexemes build a tree wherever a value is due. -/
def Draws (text : List Char) (draft : JsonDraft) : Prop :=
  ∃ lexemes, JsonLexeme.Spells text lexemes ∧ Builds lexemes draft

/-- The whole text is read as the tree, and nothing follows it. -/
theorem Draws.ofText {text : String} {draft : JsonDraft} (h : Draws text.toList draft) :
    JsonDraft.ofText text = (draft, false) := by
  obtain ⟨lexemes, hspells, hbuilds⟩ := h
  have hread := hbuilds.readValue_append [] []
  rw [List.append_nil] at hread
  rw [JsonDraft.ofText, hspells.scan_eq, hread, JsonDraft.readOn.eq_def]
  rfl

namespace Draws

open JsonLexeme

variable {inner between outer space : List Char}

/-- Lexemes for each of several texts. -/
theorem exists_words {texts : List (List Char)} {drafts : List JsonDraft}
    (h : List.Forall₂ Draws texts drafts) :
    ∃ words, List.Forall₂ JsonLexeme.Spells texts words ∧ List.Forall₂ Builds words drafts := by
  induction h with
  | nil => exact ⟨[], .nil, .nil⟩
  | cons hfirst _ ih =>
    obtain ⟨word, hspells, hbuilds⟩ := hfirst
    obtain ⟨words, hall, hall'⟩ := ih
    exact ⟨word :: words, .cons hspells hall, .cons hbuilds hall'⟩

/-- Items between brackets, in any layout. -/
theorem array (hinner : ∀ c ∈ inner, isSpace c = true) (hbetween : ∀ c ∈ between, isSpace c = true)
    (houter : ∀ c ∈ outer, isSpace c = true) {texts : List (List Char)} {drafts : List JsonDraft}
    (h : List.Forall₂ Draws texts drafts) :
    Draws ('[' :: (inner ++ ((',' :: between).intercalate texts ++ (outer ++ [']']))))
      (.array drafts none) := by
  obtain ⟨words, hspells, hbuilds⟩ := exists_words h
  have hseparated := JsonLexeme.Spells.separated hbetween hspells
  exact ⟨_, JsonLexeme.Spells.bracketed rfl rfl hinner houter hseparated, Builds.array hbuilds⟩

/-- A name, a colon and a value. -/
def memberText (space : List Char) (entry : String × List Char) : List Char :=
  (Json.writeText entry.1).toList ++ ':' :: (space ++ entry.2)

/-- A written member spells its name, a colon and the lexemes of its value. -/
theorem spells_memberText (hspace : ∀ c ∈ space, isSpace c = true) {entry : String × List Char}
    {lexemes : List JsonLexeme} (h : JsonLexeme.Spells entry.2 lexemes) :
    JsonLexeme.Spells (memberText space entry)
      (.text (TextLiteral.ofText entry.1) :: .colon :: lexemes) := by
  have hcolon : punctuation? ':' = some .colon := rfl
  have hname := JsonLexeme.Spells.writeText entry.1
  have hall := hname.append_punctuation (List.forall_mem_nil _) hcolon
    (JsonLexeme.Spells.blank_append hspace h)
  rwa [List.nil_append, List.singleton_append] at hall

/-- Lexemes for each of several members. -/
theorem exists_memberWords (hspace : ∀ c ∈ space, isSpace c = true)
    {entries : List (String × List Char)} {drafts : List JsonDraft}
    (h : List.Forall₂ (fun entry draft => Draws entry.2 draft) entries drafts) :
    ∃ words : List (TextLiteral × List JsonLexeme),
      List.Forall₂ JsonLexeme.Spells (entries.map (memberText space))
        (words.map fun word => .text word.1 :: .colon :: word.2) ∧
      List.Forall₂ (fun word draft => word.1 = draft.1 ∧ Builds word.2 draft.2) words
        ((entries.map fun entry => TextLiteral.ofText entry.1).zip drafts) := by
  induction h with
  | nil => exact ⟨[], .nil, .nil⟩
  | @cons entry draft entries drafts hfirst _ ih =>
    obtain ⟨word, hspells, hbuilds⟩ := hfirst
    obtain ⟨words, hall, hall'⟩ := ih
    exact ⟨(TextLiteral.ofText entry.1, word) :: words,
      .cons (spells_memberText hspace hspells) hall, .cons ⟨rfl, hbuilds⟩ hall'⟩

/-- Members between braces, in any layout. -/
theorem object (hinner : ∀ c ∈ inner, isSpace c = true)
    (hbetween : ∀ c ∈ between, isSpace c = true) (hspace : ∀ c ∈ space, isSpace c = true)
    (houter : ∀ c ∈ outer, isSpace c = true) {entries : List (String × List Char)}
    {drafts : List JsonDraft}
    (h : List.Forall₂ (fun entry draft => Draws entry.2 draft) entries drafts) :
    Draws ('\x7b' :: (inner ++ ((',' :: between).intercalate (entries.map (memberText space)) ++
        (outer ++ ['\x7d']))))
      (.object ((entries.map fun entry => TextLiteral.ofText entry.1).zip drafts) .closed) := by
  obtain ⟨words, hspells, hbuilds⟩ := exists_memberWords hspace h
  have hopening : punctuation? '\x7b' = some .openObject := rfl
  have hclosing : punctuation? '\x7d' = some .closeObject := rfl
  have hseparated := JsonLexeme.Spells.separated hbetween hspells
  exact ⟨_, JsonLexeme.Spells.bracketed hopening hclosing hinner houter hseparated,
    Builds.object hbuilds⟩

end Draws

/-! ## Whole values -/

namespace Json

/-- A value without doubles, whose text stands for it exactly. -/
inductive IsExact : Json → Prop where
  | null : IsExact .null
  | boolean (value : Bool) : IsExact (.boolean value)
  | integer (value : ℤ) : IsExact (.integer value)
  | text (value : String) : IsExact (.text value)
  | array {items : List Json} (h : ∀ item ∈ items, IsExact item) : IsExact (.array items)
  | object {members : List (String × Json)} (h : ∀ member ∈ members, IsExact member.2) :
    IsExact (.object members)

mutual

/-- The tree of a written value. The digits of doubles are left out. -/
def draft : Json → JsonDraft
  | .null => .null
  | .boolean value => .boolean value
  | .number (.integer value) => .number (NumberLiteral.ofInt value)
  | .number (.float _) => .absent
  | .text value => .text (TextLiteral.ofText value)
  | .array items => .array (itemDrafts items) none
  | .object members => .object (memberDrafts members) .closed

/-- The trees of the items of an array. -/
def itemDrafts : List Json → List JsonDraft
  | [] => []
  | item :: items => item.draft :: itemDrafts items

/-- The trees of the members of an object. -/
def memberDrafts : List (String × Json) → List (TextLiteral × JsonDraft)
  | [] => []
  | (name, value) :: members => (TextLiteral.ofText name, value.draft) :: memberDrafts members

end

/-- The items of an array mean what each of them means. -/
theorem itemDrafts_eq (items : List Json) : itemDrafts items = items.map draft := by
  induction items with
  | nil => rfl
  | cons item items ih => rw [itemDrafts, ih, List.map_cons]

/-- The members of an object mean what each of them means. -/
theorem memberDrafts_eq (members : List (String × Json)) :
    memberDrafts members =
      members.map fun member => (TextLiteral.ofText member.1, member.2.draft) := by
  induction members with
  | nil => rfl
  | cons member members ih => rw [memberDrafts, ih, List.map_cons]

/-- The items of an array are written without blanks each by itself. -/
theorem compactItems_eq (items : List Json) : compactItems items = items.map compact := by
  induction items with
  | nil => rfl
  | cons item items ih => rw [compactItems, ih, List.map_cons]

/-- So are the members of an object, with a colon behind the name. -/
theorem compactMembers_eq (members : List (String × Json)) :
    compactMembers members =
      members.map fun member => writeText member.1 ++ ":" ++ member.2.compact := by
  induction members with
  | nil => rfl
  | cons member members ih => rw [compactMembers, ih, List.map_cons]

/-- The items of an array are laid out each by itself. -/
theorem prettyItems_eq (level : Nat) (items : List Json) :
    prettyItems level items = items.map (prettyAt level) := by
  induction items with
  | nil => rfl
  | cons item items ih => rw [prettyItems, ih, List.map_cons]

/-- So are the members of an object, with a colon and a blank behind the name. -/
theorem prettyMembers_eq (level : Nat) (members : List (String × Json)) :
    prettyMembers level members =
      members.map fun member => writeText member.1 ++ ": " ++ member.2.prettyAt level := by
  induction members with
  | nil => rfl
  | cons member members ih => rw [prettyMembers, ih, List.map_cons]

/-- An exact value is read from its text without blanks. -/
theorem IsExact.draws_compact {value : Json} (h : value.IsExact) :
    Draws value.compact.toList value.draft := by
  have hblank := List.forall_mem_nil fun c => JsonLexeme.isSpace c = true
  induction h with
  | null => exact ⟨_, JsonLexeme.Spells.null, Builds.null⟩
  | boolean value => exact ⟨_, JsonLexeme.Spells.boolean value, Builds.boolean value⟩
  | integer value => exact ⟨_, JsonLexeme.Spells.integer value, Builds.number _⟩
  | text value => exact ⟨_, JsonLexeme.Spells.writeText value, Builds.text value⟩
  | @array items h ih =>
    have hitems : List.Forall₂ Draws (items.map fun item => item.compact.toList)
        (items.map draft) := by
      rw [List.forall₂_map_left_iff, List.forall₂_map_right_iff, List.forall₂_same]
      exact ih
    have hall := Draws.array hblank hblank hblank hitems
    rw [draft, itemDrafts_eq, compact, compactItems_eq]
    simpa [String.toList_intercalate, Function.comp_def] using hall
  | @object members h ih =>
    have hmembers : List.Forall₂ (fun entry draft => Draws entry.2 draft)
        (members.map fun member => (member.1, member.2.compact.toList))
        (members.map fun member => member.2.draft) := by
      rw [List.forall₂_map_left_iff, List.forall₂_map_right_iff, List.forall₂_same]
      exact ih
    have hall := Draws.object hblank hblank hblank hblank hmembers
    rw [draft, memberDrafts_eq, compact, compactMembers_eq]
    simpa [String.toList_intercalate, Function.comp_def, Draws.memberText, List.zip_map'] using hall

/-- A line break with its indentation is blank. -/
theorem isSpace_lineBreak (level : Nat) :
    ∀ c ∈ (lineBreak level).toList, JsonLexeme.isSpace c = true := by
  intro c h
  rw [lineBreak, String.toList_ofList, List.mem_cons, List.mem_replicate] at h
  rcases h with rfl | ⟨-, rfl⟩ <;> rfl

/-- An array or object that is laid out has a line for each entry and one for the closing bracket.
-/
theorem toList_block (opening closing : String) (level : Nat) {entries : List String}
    (h : entries ≠ []) :
    (block opening closing level entries).toList =
      opening.toList ++ ((lineBreak (level + 1)).toList ++
        ((',' :: (lineBreak (level + 1)).toList).intercalate (entries.map String.toList) ++
          ((lineBreak level).toList ++ closing.toList))) := by
  rw [block, if_neg (by rwa [List.isEmpty_iff])]
  simp [String.toList_intercalate]

/-- An exact value is read from its text laid out at any level. -/
theorem IsExact.draws_prettyAt {value : Json} (h : value.IsExact) (level : Nat) :
    Draws (value.prettyAt level).toList value.draft := by
  have hblank := List.forall_mem_nil fun c => JsonLexeme.isSpace c = true
  induction h generalizing level with
  | null => exact ⟨_, JsonLexeme.Spells.null, Builds.null⟩
  | boolean value => exact ⟨_, JsonLexeme.Spells.boolean value, Builds.boolean value⟩
  | integer value => exact ⟨_, JsonLexeme.Spells.integer value, Builds.number _⟩
  | text value => exact ⟨_, JsonLexeme.Spells.writeText value, Builds.text value⟩
  | @array items h ih =>
    have hitems : List.Forall₂ Draws (items.map fun item => (item.prettyAt (level + 1)).toList)
        (items.map draft) := by
      rw [List.forall₂_map_left_iff, List.forall₂_map_right_iff, List.forall₂_same]
      exact fun item hitem => ih item hitem (level + 1)
    rw [draft, itemDrafts_eq, prettyAt, prettyItems_eq]
    rcases eq_or_ne items [] with rfl | hsome
    · have hnone := Draws.array hblank hblank hblank .nil
      simpa [block] using hnone
    · rw [toList_block _ _ _ (by simpa using hsome), List.map_map]
      exact Draws.array (isSpace_lineBreak _) (isSpace_lineBreak _) (isSpace_lineBreak _) hitems
  | @object members h ih =>
    have hmembers : List.Forall₂ (fun entry draft => Draws entry.2 draft)
        (members.map fun member => (member.1, (member.2.prettyAt (level + 1)).toList))
        (members.map fun member => member.2.draft) := by
      rw [List.forall₂_map_left_iff, List.forall₂_map_right_iff, List.forall₂_same]
      exact fun member hmember => ih member hmember (level + 1)
    have hspace : ∀ c ∈ [' '], JsonLexeme.isSpace c = true := List.forall_mem_singleton.mpr rfl
    rw [draft, memberDrafts_eq, prettyAt, prettyMembers_eq]
    rcases eq_or_ne members [] with rfl | hsome
    · have hnone := Draws.object hblank hblank hblank hblank .nil
      simpa [block] using hnone
    · have hall := Draws.object (isSpace_lineBreak (level + 1)) (isSpace_lineBreak (level + 1))
        hspace (isSpace_lineBreak level) hmembers
      rw [toList_block _ _ _ (by simpa using hsome), List.map_map]
      simp only [List.map_map, Function.comp_def, Draws.memberText, String.toList_append,
        List.append_assoc, List.zip_map'] at hall ⊢
      exact hall

/-- **A value without doubles is read back from its text on one line.** -/
theorem IsExact.ofText_compact {value : Json} (h : value.IsExact) :
    JsonDraft.ofText value.compact = (value.draft, false) :=
  h.draws_compact.ofText

/-- **A value without doubles is read back from its text over several lines.** -/
theorem IsExact.ofText_pretty {value : Json} (h : value.IsExact) :
    JsonDraft.ofText value.pretty = (value.draft, false) :=
  (h.draws_prettyAt 0).ofText

/-- The text of a value, over several lines or on one. -/
def laidOut (indented : Bool) (value : Json) : String :=
  if indented then value.pretty else value.compact

/-- Readers see the same in both layouts of an exact value. -/
theorem IsExact.readJson_laidOut {α : Type} {value : Json} (h : value.IsExact) (indented : Bool)
    (read : JsonReader α) :
    readJson read (value.laidOut indented) = read maxNesting value.draft := by
  have htext : JsonDraft.ofText (value.laidOut indented) = (value.draft, false) := by
    cases indented
    · exact h.ofText_compact
    · exact h.ofText_pretty
  rw [readJson, htext]
  exact bind_pure (read maxNesting value.draft)

end Json

/-- The literal of an integer that 64 bits hold, with a sign or without, is read as the integer. -/
theorem NumberLiteral.value?_ofInt {n : ℤ} (hlow : -2 ^ 63 ≤ n) (hhigh : n < 2 ^ 64) :
    (NumberLiteral.ofInt n).value? = some (.integer n) := by
  have h63 : twoPow 63 = 2 ^ 63 := rfl
  have h64 : twoPow 64 = 2 ^ 64 := rfl
  cases n with
  | ofNat n =>
    have hnatural : (n : ℤ) < 2 ^ 64 := hhigh
    have hinteger : (NumberLiteral.ofInt (.ofNat n)).IsInteger := by
      refine ⟨⟨rfl, rfl⟩, ?_⟩
      show digitsValue (Nat.toDigits 10 n) < twoPow 64
      rw [digitsValue_toDigits]
      omega
    rw [value?_of_isInteger hinteger]
    show some (JsonNumber.integer (digitsValue (Nat.toDigits 10 n))) = _
    rw [digitsValue_toDigits]
    rfl
  | negSucc n =>
    have hinteger : (NumberLiteral.ofInt (.negSucc n)).IsInteger := by
      refine ⟨⟨rfl, rfl⟩, ?_⟩
      show 0 < digitsValue (Nat.toDigits 10 (n + 1)) ∧
        digitsValue (Nat.toDigits 10 (n + 1)) ≤ twoPow 63
      rw [digitsValue_toDigits]
      omega
    rw [value?_of_isInteger hinteger]
    show some (JsonNumber.integer (-(digitsValue (Nat.toDigits 10 (n + 1)) : ℤ))) = _
    rw [digitsValue_toDigits]
    rfl

end Tariff
