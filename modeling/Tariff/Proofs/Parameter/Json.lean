/-
# Written parameters

A decimal is written as a text, and read as one. Where it counts as a decimal again, it is the same
number with the same scale. All other values but doubles are read as they were written.

* `ParameterValue.textToDecimal?_toText` : the text of a decimal counts as the decimal;
* `ParameterValue.read_draft_toJson` : what is read of a written value;
* `ParameterValue.isDefault_of_read` : what is true of a value that has been read;
* `sameNumber_reread` : a written value counts as the same number;
* `ParameterBag.exists_ofText_toJson` : what is read of a written bag.
-/
import Tariff.Parameter.Json
import Tariff.Proofs.Decimal.Canonical
import Tariff.Proofs.Decimal.Text
import Tariff.Proofs.Json.Readers
import Tariff.Proofs.Parameter.Numbers
import Tariff.Proofs.Parameter.Text

namespace Tariff

/-! ## Values -/

namespace ParameterValue

/-- What is read of a written value: of a decimal, its text. -/
def reread : ParameterValue → ParameterValue
  | .decimal value => .text value.toText
  | value => value

/-- The text of a decimal counts as the decimal, though without the sign of a zero. -/
theorem textToDecimal?_toText (a : Decimal) : textToDecimal? a.toText = some a.reread := by
  have hwritten : a.numeral.IsWritten a.toText :=
    ⟨[], [], List.forall_mem_nil _, List.forall_mem_nil _, by rw [a.toList_toText]; simp⟩
  rw [textToDecimal?_of_isWritten hwritten, ← a.toList_toText, a.readNumeral_toText]
  rfl

/-- All values but doubles are written exactly. -/
theorem isExact_toJson {value : ParameterValue} (h : value.kind ≠ .float) :
    value.toJson.IsExact := by
  cases value with
  | decimal a => exact .text _
  | integer n => exact .integer _
  | float x => exact absurd rfl h
  | text s => exact .text s
  | boolean b => exact .boolean b
  | null => exact .null

/-- A literal that is written for an integer of 64 bits is read as the integer. -/
theorem ofNumber_integer (n : Int64) : ofNumber (.integer n.toInt) = .integer n := by
  have hfits : fitsSigned 64 n.toInt = true := fitsSigned_iff.mpr ⟨n.le_toInt, n.toInt_lt⟩
  unfold ofNumber
  dsimp only
  rw [if_pos hfits, Int64.ofInt_toInt]

/-- A text is read as it was written. -/
theorem read_draft_text (room : Nat) (s : String) :
    read room (Json.text s).draft = .ok (.text s) := by
  rw [read, Json.draft, JsonDraft.toJson, TextLiteral.decode_ofText]
  rfl

/-- A written value is read as its reread form. -/
theorem read_draft_toJson (room : Nat) {value : ParameterValue} (h : value.kind ≠ .float) :
    read room value.toJson.draft = .ok value.reread := by
  cases value with
  | decimal a => exact read_draft_text room a.toText
  | integer n =>
    have hvalue : (NumberLiteral.ofInt n.toInt).value? = some (.integer n.toInt) :=
      NumberLiteral.value?_ofInt n.le_toInt (n.toInt_lt.trans (by norm_num))
    show read room (.number (NumberLiteral.ofInt n.toInt)) = _
    rw [read, JsonDraft.toJson, hvalue]
    exact congrArg Except.ok (ofNumber_integer n)
  | float x => exact absurd rfl h
  | text s => exact read_draft_text room s
  | boolean b => rfl
  | null => rfl

/-! ## Values that have been read -/

/-- What a default can be that has been read: it is not null, and no zero has a minus sign. -/
structure IsDefault (value : ParameterValue) : Prop where
  kind : value.kind ≠ .null
  canonical : ∀ a, value = .decimal a → a.Canonical

/-- What is read of a number is no zero with a minus sign. -/
theorem isDefault_ofNumber (number : JsonNumber) : (ofNumber number).IsDefault := by
  have hplain : ∀ value : ParameterValue, value.kind = .integer ∨ value.kind = .float →
      value.IsDefault := by
    intro value hvalue
    refine ⟨fun hnull => by simp [hnull] at hvalue, ?_⟩
    rintro a rfl
    simp [kind] at hvalue
  have hdecimal : ∀ {a : Decimal}, Decimal.ofText number.toText = .ok a →
      (ParameterValue.decimal a).IsDefault := by
    intro a hread
    refine ⟨by simp [kind], ?_⟩
    rintro _ ⟨⟩
    exact JsonNumber.canonical_of_toText hread
  -- Numbers that are no integers of 64 bits are read from their texts, if decimals stand for them.
  cases number with
  | integer value =>
    unfold ofNumber
    dsimp only
    split
    · exact hplain _ (Or.inl rfl)
    · split
      · next hread => exact hdecimal hread
      · exact hplain _ (Or.inr rfl)
      · exact hplain _ (Or.inr rfl)
  | float value =>
    unfold ofNumber
    dsimp only
    split
    · next hread => exact hdecimal hread
    · exact hplain _ (Or.inr rfl)
    · exact hplain _ (Or.inr rfl)

/-- A value that is read from anything but `null` is one that a default can have. -/
theorem isDefault_of_read {room : Nat} {draft : JsonDraft} {value : ParameterValue}
    (h : read room draft = .ok value) (hnull : draft ≠ .null) : value.IsDefault := by
  obtain ⟨json, hjson, hvalue⟩ := bind_eq_ok_iff.mp h
  cases json with
  | null => exact absurd (JsonDraft.eq_null_of_toJson hjson) hnull
  | boolean b =>
    cases hvalue
    exact ⟨by simp [kind], by simp⟩
  | text s =>
    cases hvalue
    exact ⟨by simp [kind], by simp⟩
  | number number =>
    cases hvalue
    exact isDefault_ofNumber number
  | array | object => cases hvalue

/-- A default counts as the same decimal after it has been written and read. -/
theorem IsDefault.toDecimal?_reread {value : ParameterValue} (h : value.IsDefault) :
    value.reread.toDecimal? = value.toDecimal? := by
  cases value with
  | decimal a =>
    show textToDecimal? a.toText = some a
    rw [textToDecimal?_toText, (h.canonical a rfl).reread_eq]
  | integer | float | text | boolean | null => rfl

end ParameterValue

/-! ## Numbers -/

/-- Two look-ups have the same outcome: equal numbers of the same scale, or the same error. -/
inductive SameNumber : Except RuleError Decimal → Except RuleError Decimal → Prop where
  | ok {a b : Decimal} (value : a.toRat = b.toRat) (scale : a.scale = b.scale) :
    SameNumber (.ok a) (.ok b)
  | error (error : RuleError) : SameNumber (.error error) (.error error)

/-- An outcome gives the same number as itself. -/
theorem SameNumber.refl (outcome : Except RuleError Decimal) : SameNumber outcome outcome := by
  cases outcome with
  | ok a => exact .ok rfl rfl
  | error error => exact .error error

/-- The text of a decimal stands for the decimal. -/
theorem resolve_text_toText {source : ParameterSource} {name : String} {a : Decimal}
    (h : source name = some (.text a.toText)) : resolve source name = .ok a.reread := by
  rw [resolve_of_some h, ParameterValue.toDecimal?, ParameterValue.textToDecimal?_toText]

/-- A value counts as the same number after it has been written and read, or as none as before. -/
theorem sameNumber_reread {source other : ParameterSource} {name : String}
    (h : other name = (source name).map ParameterValue.reread) :
    SameNumber (resolve source name) (resolve other name) := by
  cases hvalue : source name with
  | none =>
    rw [hvalue, Option.map_none] at h
    rw [resolve, resolve, hvalue, h]
    exact .error _
  | some value =>
    rw [hvalue, Option.map_some] at h
    -- Only decimals become something else.
    cases value with
    | decimal a =>
      have hbefore : resolve source name = .ok a := resolve_of_some hvalue
      rw [hbefore, resolve_text_toText h]
      exact .ok a.toRat_reread.symm a.scale_reread.symm
    | integer | float | text | boolean | null =>
      rw [resolve_of_some hvalue, resolve_of_some h]
      exact SameNumber.refl _

/-- A default that has been read counts as the same number, or as none with the same error. -/
theorem ParameterValue.IsDefault.resolve_reread {source other : ParameterSource} {name : String}
    {value : ParameterValue} (h : value.IsDefault) (hsource : source name = some value)
    (hother : other name = some value.reread) : resolve source name = resolve other name := by
  rw [resolve_of_some hsource, resolve_of_some hother, h.toDecimal?_reread]
  -- An error names the kind of a value, which is the same unless it is a decimal.
  cases value with
  | decimal a => rfl
  | integer | float | text | boolean | null => rfl

/-! ## Bags -/

namespace ParameterBag

/-- What is read of a written bag. -/
def reread (bag : ParameterBag) : ParameterBag where
  entries := bag.entries.map fun entry => (entry.1, entry.2.reread)
  nodup := by
    rw [List.map_map]
    exact bag.nodup

/-- What is read of a bag has the reread values. -/
theorem get?_reread (bag : ParameterBag) (name : String) :
    bag.reread.get? name = (bag.get? name).map ParameterValue.reread := by
  show (bag.entries.map fun entry => (entry.1, entry.2.reread)).lookup name =
    (bag.entries.lookup name).map _
  induction bag.entries with
  | nil => rfl
  | cons entry entries ih =>
    obtain ⟨key, value⟩ := entry
    rw [List.map_cons, List.lookup_cons, List.lookup_cons, ih]
    cases name == key <;> rfl

/-- A written bag is read again in both layouts. -/
theorem ofText_toJson {bag : ParameterBag}
    (h : ∀ entry ∈ bag.entries, entry.2.kind ≠ .float) (indented : Bool) :
    ofText (bag.toJson.laidOut indented) = .ok bag.reread := by
  have hexact : bag.toJson.IsExact := by
    refine .object fun member hmember => ?_
    obtain ⟨entry, hentry, rfl⟩ := List.mem_map.mp hmember
    exact ParameterValue.isExact_toJson (h entry hentry)
  have hmembers : List.Forall₂ (fun draft entry => draft.1.decode = .ok entry.1 ∧
      ParameterValue.read 126 draft.2 = .ok entry.2)
      (Json.memberDrafts (bag.entries.map fun entry => (entry.1, entry.2.toJson)))
      bag.reread.entries := by
    rw [Json.memberDrafts_eq, List.map_map, reread, List.forall₂_map_left_iff,
      List.forall₂_map_right_iff, List.forall₂_same]
    exact fun entry hentry =>
      ⟨TextLiteral.decode_ofText entry.1, ParameterValue.read_draft_toJson 126 (h entry hentry)⟩
  have hmap : JsonReader.map ParameterValue.read maxNesting bag.toJson.draft =
      .ok bag.reread.entries := JsonReader.map_members hmembers
  rw [ofText, hexact.readJson_laidOut, read, hmap]
  exact congrArg Except.ok (Table.ofList_entries bag.reread)

/-- **A bag without doubles keeps its meaning when it is written and read.** It has the same names,
and under each name an equal number of the same scale, or the same error as before. -/
theorem exists_ofText_toJson {bag : ParameterBag}
    (h : ∀ name value, bag.get? name = some value → value.kind ≠ .float) (indented : Bool) :
    ∃ reread, ofText (bag.toJson.laidOut indented) = .ok reread ∧ reread.names = bag.names ∧
      ∀ name, SameNumber (resolve bag.get? name) (resolve reread.get? name) := by
  have hentries : ∀ entry ∈ bag.entries, entry.2.kind ≠ .float := fun entry hentry =>
    h entry.1 entry.2 ((bag.get?_eq_some_iff).mpr hentry)
  refine ⟨bag.reread, ofText_toJson hentries indented, ?_, fun name => ?_⟩
  · show (bag.entries.map fun entry => (entry.1, entry.2.reread)).map Prod.fst = _
    rw [List.map_map]
    rfl
  · exact sameNumber_reread (bag.get?_reread name)

end ParameterBag

end Tariff
