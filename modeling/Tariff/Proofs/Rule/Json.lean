/-
# Rules are read as they were written

A written rule has all its fields, each of which is read as it was written, but for the defaults of
its parameters: a decimal becomes a text. What has been read of a rule is such that it can be
written and read again: no default is null or a zero with a minus sign, and its points in time are
those of a day.

* `ParameterDeclaration.read_draft_toJson`, `Rule.read_draft_toJson` : what written rules say;
* `Rule.ofText_toJson` : a rule is read back from its text;
* `Rule.IsRead.sound` : what is true of a rule that has been read.
-/
import Tariff.Proofs.Calendar.Text
import Tariff.Proofs.Parameter.Json
import Tariff.Rule.Json

namespace Tariff

open JsonReader (foldMembers)

/-! ## Fields -/

/-- An optional value is written exactly if the value is whenever there is one. -/
theorem Json.isExact_ofOption_map {α : Type} {toJson : α → Json} {value : Option α}
    (h : ∀ a, value = some a → (toJson a).IsExact) :
    (Json.ofOption (value.map toJson)).IsExact := by
  cases value with
  | none => exact .null
  | some a => exact h a rfl

namespace JsonReader

/-- A field that has not been seen before takes its value. -/
@[simp] theorem once_none {α : Type} (name : String) (value : α) :
    once name none (.ok value) = .ok (some value) := rfl

/-- A date is read from its own text. -/
@[simp] theorem date_draft (room : Nat) (d : Date) : date room (Json.text d.toText).draft = .ok d :=
  bind_eq_ok_iff.mpr ⟨d.toText, textAs_draft _ room d.toText,
    mapError_eq_ok_iff.mpr d.ofText_toText⟩

/-- A point in time is read from its own text. -/
theorem timestamp_draft (room : Nat) {t : Timestamp} (h : t.WellFormed) :
    timestamp room (Json.text t.toText).draft = .ok t :=
  bind_eq_ok_iff.mpr ⟨t.toText, textAs_draft _ room t.toText,
    mapError_eq_ok_iff.mpr (Timestamp.ofText_toText h)⟩

/-- An integer of 32 bits is read from its own digits. -/
@[simp] theorem int32_draft (room : Nat) (n : Int32) :
    int32 room (Json.integer n.toInt).draft = .ok n := by
  have hlow := n.le_toInt
  have hhigh := n.toInt_lt
  have hvalue : (NumberLiteral.ofInt n.toInt).value? = some (.integer n.toInt) :=
    NumberLiteral.value?_ofInt (by omega) (by omega)
  have hlimit : (twoPow (32 - 1) : ℤ) = 2147483648 := rfl
  have hfits : fitsSigned 32 n.toInt = true := by
    rw [fitsSigned, Bool.and_eq_true, decide_eq_true_eq, decide_eq_true_eq, hlimit]
    omega
  show int32 room (.number (NumberLiteral.ofInt n.toInt)) = _
  unfold int32
  simp only [hvalue]
  rw [if_pos hfits, Int32.ofInt_toInt]

/-- An optional text is read as it was written, with `null` for none. -/
@[simp] theorem optional_text_draft (room : Nat) (s : Option String) :
    optional text room (Json.ofOption (s.map .text)).draft = .ok s := by
  have hread : optional text room (Json.ofOption (s.map .text)).draft = .ok (s.map id) :=
    optional_draft .text id fun a _ => ⟨by simp [Json.draft], text_draft room a⟩
  rwa [Option.map_id] at hread

/-- An optional date is read as it was written, with `null` for none. -/
@[simp] theorem optional_date_draft (room : Nat) (d : Option Date) :
    optional date room (Json.ofOption (d.map fun d => .text d.toText)).draft = .ok d := by
  have hread : optional date room (Json.ofOption (d.map fun d => .text d.toText)).draft =
      .ok (d.map id) :=
    optional_draft (fun d : Date => .text d.toText) id fun a _ =>
      ⟨by simp [Json.draft], date_draft room a⟩
  rwa [Option.map_id] at hread

end JsonReader

/-- A kind of rule is read from its own name. -/
@[simp] theorem RuleType.read_draft (room : Nat) (type : RuleType) :
    RuleType.read room (Json.text type.name).draft = .ok type := by
  rw [RuleType.read, JsonReader.variant_draft]
  cases type <;> rfl

/-- A type of parameters is read from its own name. -/
@[simp] theorem ParameterType.read_draft (room : Nat) (type : ParameterType) :
    ParameterType.read room (Json.text type.name).draft = .ok type := by
  rw [ParameterType.read, JsonReader.variant_draft]
  cases type <;> rfl

/-! ## Declarations -/

namespace ParameterDeclaration

/-- What is read of a written declaration. -/
def reread (declaration : ParameterDeclaration) : ParameterDeclaration :=
  { declaration with default := declaration.default.map ParameterValue.reread }

/-- A default, if there is one, is no double and can be told from none. -/
def IsWritable (declaration : ParameterDeclaration) : Prop :=
  ∀ value, declaration.default = some value → value.kind ≠ .float ∧ value.kind ≠ .null

variable {declaration : ParameterDeclaration}

/-- A declaration whose default can be written is written exactly. -/
theorem isExact_toJson (h : declaration.IsWritable) : declaration.toJson.IsExact := by
  have hdefault : (Json.ofOption (declaration.default.map ParameterValue.toJson)).IsExact :=
    Json.isExact_ofOption_map fun value hvalue => ParameterValue.isExact_toJson (h value hvalue).1
  refine .object ?_
  simp only [List.forall_mem_cons, List.not_mem_nil, false_implies, implies_true, and_true,
    Json.IsExact.text, true_and]
  exact ⟨hdefault, Json.isExact_ofOption_map fun text _ => .text text⟩

/-- A written default is read as its reread form. -/
theorem optional_read_draft (room : Nat) (h : declaration.IsWritable) :
    JsonReader.optional ParameterValue.read room
      (Json.ofOption (declaration.default.map ParameterValue.toJson)).draft =
        .ok declaration.reread.default := by
  refine JsonReader.optional_draft ParameterValue.toJson ParameterValue.reread
    fun value hvalue => ?_
  obtain ⟨hfloat, hnull⟩ := h value hvalue
  refine ⟨fun hdraft => ?_, ParameterValue.read_draft_toJson room hfloat⟩
  cases value with
  | null => exact hnull rfl
  | float x => exact hfloat rfl
  | decimal | integer | text | boolean => cases hdraft

/-- A declaration is read as it was written. -/
theorem read_draft_toJson (room : Nat) (h : declaration.IsWritable) :
    read (room + 1) declaration.toJson.draft = .ok declaration.reread := by
  have hfields : foldMembers (setField room) ⟨none, none, none, none⟩
      (Json.memberDrafts [("name", .text declaration.name), ("type", .text declaration.type.name),
        ("default", .ofOption (declaration.default.map ParameterValue.toJson)),
        ("description", .ofOption (declaration.description.map .text))]) =
      .ok ⟨some declaration.name, some declaration.type, some declaration.reread.default,
        some declaration.description⟩ := by
    simp only [Json.memberDrafts, foldMembers, TextLiteral.decode_ofText, setField,
      JsonReader.text_draft, ParameterType.read_draft, optional_read_draft room h,
      JsonReader.optional_text_draft, JsonReader.once_none, Except.map, bind, Except.bind]
  show (JsonReader.RecordFields.read fields ⟨none, none, none, none⟩ (room + 1)
    (.object (Json.memberDrafts _) .closed) >>= _) = _
  rw [JsonReader.RecordFields.read]
  show ((foldMembers (setField room) ⟨none, none, none, none⟩ (Json.memberDrafts _) >>= _) >>= _) =
    _
  rw [hfields]
  rfl

end ParameterDeclaration

/-! ## Rules -/

namespace Rule

/-- What is read of a written rule. -/
def reread (rule : Rule) : Rule :=
  { rule with parameters := rule.parameters.map ParameterDeclaration.reread }

/-- A rule can be written so that it is read again. -/
structure IsWritable (rule : Rule) : Prop where
  parameters : ∀ declaration ∈ rule.parameters, declaration.IsWritable
  createdAt : ∀ t, rule.createdAt = some t → t.WellFormed
  updatedAt : ∀ t, rule.updatedAt = some t → t.WellFormed

variable {rule : Rule}

/-- The members of a written rule, points in time aside. -/
def members (rule : Rule) : List (String × Json) :=
  [("id", .text rule.id), ("name", .text rule.name), ("country_code", .text rule.country),
    ("rule_type", .text rule.type.name), ("expression", .text rule.expression),
    ("condition", .ofOption (rule.condition.map .text)),
    ("priority", .integer rule.priority.toInt),
    ("effective_from", .text rule.effectiveFrom.toText),
    ("effective_to", .ofOption (rule.effectiveTo.map fun date => .text date.toText)),
    ("parameters", .array (rule.parameters.map ParameterDeclaration.toJson)),
    ("description", .ofOption (rule.description.map .text))]

/-- The member for a point in time, if it is known. -/
def stamp (name : String) (time : Option Timestamp) : List (String × Json) :=
  (time.map fun t => (name, Json.text t.toText)).toList

/-- A rule is written as its members and the times that it has, in this order. -/
theorem toJson_eq (rule : Rule) :
    rule.toJson = .object (rule.members ++ stamp "created_at" rule.createdAt ++
      stamp "updated_at" rule.updatedAt) := rfl

/-- The member of a time is written exactly. -/
theorem isExact_stamp (name : String) (time : Option Timestamp) :
    ∀ member ∈ stamp name time, member.2.IsExact := by
  intro member hmember
  obtain ⟨t, -, rfl⟩ := Option.map_eq_some_iff.mp (Option.mem_toList.mp hmember)
  exact .text _

/-- A rule whose parts can be written is written exactly. -/
theorem isExact_toJson (h : rule.IsWritable) : rule.toJson.IsExact := by
  have hparameters : ∀ item ∈ rule.parameters.map ParameterDeclaration.toJson, item.IsExact := by
    intro item hitem
    obtain ⟨declaration, hdeclaration, rfl⟩ := List.mem_map.mp hitem
    exact ParameterDeclaration.isExact_toJson (h.parameters declaration hdeclaration)
  have hmembers : ∀ member ∈ rule.members, member.2.IsExact := by
    simp only [members, List.forall_mem_cons, List.not_mem_nil, false_implies, implies_true,
      and_true, Json.IsExact.text, Json.IsExact.integer, true_and]
    exact ⟨Json.isExact_ofOption_map fun text _ => .text text,
      Json.isExact_ofOption_map fun date _ => .text date.toText, .array hparameters,
      Json.isExact_ofOption_map fun text _ => .text text⟩
  rw [toJson_eq]
  refine .object fun member hmember => ?_
  rcases List.mem_append.mp hmember with hmember | hmember
  · rcases List.mem_append.mp hmember with hmember | hmember
    · exact hmembers member hmember
    · exact isExact_stamp _ _ member hmember
  · exact isExact_stamp _ _ member hmember

/-- What has been read of a rule before the points in time. -/
def readParts (rule : Rule) : Parts where
  id := some rule.id
  name := some rule.name
  country := some rule.country
  type := some rule.type
  expression := some rule.expression
  condition := some rule.condition
  priority := some rule.priority
  effectiveFrom := some rule.effectiveFrom
  effectiveTo := some rule.effectiveTo
  parameters := some (rule.parameters.map ParameterDeclaration.reread)
  description := some rule.description

/-- The members of a written rule, read in turn, fill every field but the two times. -/
theorem foldMembers_members (room : Nat) (h : rule.IsWritable) :
    foldMembers (setField (room + 2)) {} (Json.memberDrafts rule.members) = .ok rule.readParts := by
  have hparameters : JsonReader.list ParameterDeclaration.read (room + 2)
      (Json.array (rule.parameters.map ParameterDeclaration.toJson)).draft =
        .ok (rule.parameters.map ParameterDeclaration.reread) :=
    JsonReader.list_draft ParameterDeclaration.toJson ParameterDeclaration.reread
      fun declaration hdeclaration =>
        ParameterDeclaration.read_draft_toJson room (h.parameters declaration hdeclaration)
  simp only [members, Json.memberDrafts, foldMembers, TextLiteral.decode_ofText, setField,
    JsonReader.text_draft, RuleType.read_draft, JsonReader.optional_text_draft,
    JsonReader.int32_draft, JsonReader.date_draft, JsonReader.optional_date_draft, hparameters,
    JsonReader.once_none, Except.map, bind, Except.bind, readParts]

/-- The member for a point in time, which may be missing. -/
theorem foldMembers_stamp {room : Nat} {start next : Parts} {name : String}
    {time : Option Timestamp} (hnone : time = none → next = start)
    (hsome : ∀ t, time = some t → setField room start name (Json.text t.toText).draft = .ok next) :
    foldMembers (setField room) start (Json.memberDrafts (stamp name time)) = .ok next := by
  cases time with
  | none =>
    rw [hnone rfl]
    rfl
  | some t => exact JsonReader.foldMembers_cons (hsome t rfl) []

/-- What has been read of a written rule. -/
theorem foldMembers_fields (room : Nat) (h : rule.IsWritable) :
    foldMembers (setField (room + 2)) {} (Json.memberDrafts
      (rule.members ++ stamp "created_at" rule.createdAt ++ stamp "updated_at" rule.updatedAt)) =
        .ok { rule.readParts with createdAt := rule.createdAt, updatedAt := rule.updatedAt } := by
  rw [List.append_assoc, JsonReader.foldMembers_append (foldMembers_members room h)]
  have hcreated : foldMembers (setField (room + 2)) rule.readParts
      (Json.memberDrafts (stamp "created_at" rule.createdAt)) =
        .ok { rule.readParts with createdAt := rule.createdAt } := by
    refine foldMembers_stamp (fun hnone => by rw [hnone]; rfl) fun t ht => ?_
    rw [setField, JsonReader.timestamp_draft _ (h.createdAt t ht), ht]
    rfl
  rw [JsonReader.foldMembers_append hcreated]
  refine foldMembers_stamp (fun hnone => by rw [hnone]; rfl) fun t ht => ?_
  rw [setField, JsonReader.timestamp_draft _ (h.updatedAt t ht), ht]
  rfl

/-- A rule is read as it was written. -/
theorem read_draft_toJson (room : Nat) (h : rule.IsWritable) :
    read (room + 3) rule.toJson.draft = .ok rule.reread := by
  rw [toJson_eq]
  show ((foldMembers (setField (room + 2)) {} (Json.memberDrafts _) >>= _) >>= _) = _
  rw [foldMembers_fields room h]
  rfl

/-- **A rule is read back from its text**, on one line or indented. -/
theorem ofText_toJson (h : rule.IsWritable) (indented : Bool) :
    ofText (rule.toJson.laidOut indented) = .ok rule.reread := by
  have hread : read maxNesting rule.toJson.draft = .ok rule.reread := read_draft_toJson 124 h
  rw [ofText, (isExact_toJson h).readJson_laidOut, hread]
  rfl

end Rule

/-! ## Rules that have been read -/

/-- What is true of a default that has been read, if there is one. -/
theorem JsonReader.isDefault_of_optional {room : Nat} {draft : JsonDraft} {value : ParameterValue}
    (h : optional ParameterValue.read room draft = .ok (some value)) : value.IsDefault := by
  unfold optional at h
  split at h
  · cases h
  · next hnull =>
    obtain ⟨result, hread, hresult⟩ := map_eq_ok_iff.mp h
    cases hresult
    exact ParameterValue.isDefault_of_read hread hnull

namespace ParameterDeclaration

/-- What is true of the default of a declaration that has been read. -/
def HasReadDefault (declaration : ParameterDeclaration) : Prop :=
  ∀ value, declaration.default = some value → value.IsDefault

/-- A field that is read keeps the default among the values that reading makes. -/
theorem setField_default {room : Nat} {parts next : Parts} {field : String} {draft : JsonDraft}
    (hparts : ∀ value, parts.default = some (some value) → value.IsDefault)
    (h : setField room parts field draft = .ok next) :
    ∀ value, next.default = some (some value) → value.IsDefault := by
  unfold setField at h
  split at h
  case h_3 =>
    obtain ⟨after, honce, rfl⟩ := map_eq_ok_iff.mp h
    obtain ⟨default, hdefault, rfl⟩ := JsonReader.exists_of_once honce
    rintro value ⟨⟩
    exact JsonReader.isDefault_of_optional hdefault
  all_goals
    obtain ⟨_, -, rfl⟩ := map_eq_ok_iff.mp h
    exact hparts

/-- The default of a declaration that has been read is a value that reading makes. -/
theorem hasReadDefault_of_read {room : Nat} {draft : JsonDraft} {declaration : ParameterDeclaration}
    (h : read room draft = .ok declaration) : declaration.HasReadDefault := by
  obtain ⟨parts, hparts, h⟩ := bind_eq_ok_iff.mp h
  obtain ⟨name, -, h⟩ := bind_eq_ok_iff.mp h
  obtain ⟨type, -, h⟩ := bind_eq_ok_iff.mp h
  cases h
  have hdefault : ∀ value, parts.default = some (some value) → value.IsDefault :=
    JsonReader.RecordFields.invariant
      (P := fun parts => ∀ value, parts.default = some (some value) → value.IsDefault)
      (fun _ _ _ _ _ hstate hset => setField_default hstate hset) (by simp) hparts
  exact fun value hvalue => hdefault value (Option.join_eq_some_iff.mp hvalue)

end ParameterDeclaration

namespace Rule

/-- What is true of the fields of a rule that has been read. -/
structure Parts.Sound (parts : Parts) : Prop where
  parameters : ∀ declarations, parts.parameters = some declarations →
    ∀ declaration ∈ declarations, declaration.HasReadDefault
  createdAt : ∀ t, parts.createdAt = some t → t.WellFormed
  updatedAt : ∀ t, parts.updatedAt = some t → t.WellFormed

end Rule

/-- A point in time that has been read is well-formed. -/
theorem JsonReader.wellFormed_of_timestamp {room : Nat} {draft : JsonDraft} {t : Timestamp}
    (h : timestamp room draft = .ok t) : t.WellFormed := by
  obtain ⟨text, -, h⟩ := bind_eq_ok_iff.mp h
  exact Timestamp.wellFormed_of_ofText (mapError_eq_ok_iff.mp h)

namespace Rule

/-- Each field that is taken in keeps the fields sound. -/
theorem Parts.Sound.setField {room : Nat} {parts next : Parts} {field : String} {draft : JsonDraft}
    (hparts : parts.Sound) (h : Rule.setField room parts field draft = .ok next) : next.Sound := by
  unfold Rule.setField at h
  split at h
  case h_10 =>
    obtain ⟨after, honce, rfl⟩ := map_eq_ok_iff.mp h
    obtain ⟨declarations, hdeclarations, rfl⟩ := JsonReader.exists_of_once honce
    refine ⟨?_, hparts.createdAt, hparts.updatedAt⟩
    rintro _ ⟨⟩
    exact JsonReader.forall_mem_of_list
      (fun _ _ _ => ParameterDeclaration.hasReadDefault_of_read) hdeclarations
  case h_12 =>
    obtain ⟨after, honce, rfl⟩ := map_eq_ok_iff.mp h
    obtain ⟨time, htime, rfl⟩ := JsonReader.exists_of_once honce
    refine ⟨hparts.parameters, ?_, hparts.updatedAt⟩
    rintro _ ⟨⟩
    exact JsonReader.wellFormed_of_timestamp htime
  case h_13 =>
    obtain ⟨after, honce, rfl⟩ := map_eq_ok_iff.mp h
    obtain ⟨time, htime, rfl⟩ := JsonReader.exists_of_once honce
    refine ⟨hparts.parameters, hparts.createdAt, ?_⟩
    rintro _ ⟨⟩
    exact JsonReader.wellFormed_of_timestamp htime
  all_goals
    obtain ⟨_, -, rfl⟩ := map_eq_ok_iff.mp h
    exact ⟨hparts.parameters, hparts.createdAt, hparts.updatedAt⟩

/-- A rule that has been read from some draft. -/
def IsRead (rule : Rule) : Prop := ∃ room draft, read room draft = .ok rule

variable {rule : Rule}

/-- A rule that has been read from a text satisfies what reading guarantees. -/
theorem isRead_of_ofText {text : String} (h : ofText text = .ok rule) : rule.IsRead :=
  ⟨maxNesting, _, JsonReader.read_of_readJson (mapError_eq_ok_iff.mp h)⟩

/-- What is true of a rule that has been read. -/
structure Sound (rule : Rule) : Prop where
  parameters : ∀ declaration ∈ rule.parameters, declaration.HasReadDefault
  createdAt : ∀ t, rule.createdAt = some t → t.WellFormed
  updatedAt : ∀ t, rule.updatedAt = some t → t.WellFormed

/-- **What has been read can be written.** -/
theorem IsRead.sound (h : rule.IsRead) : rule.Sound := by
  obtain ⟨room, draft, h⟩ := h
  obtain ⟨parts, hparts, h⟩ := bind_eq_ok_iff.mp h
  have hstart : ({} : Parts).Sound := ⟨by simp, by simp, by simp⟩
  have hsound : parts.Sound :=
    JsonReader.RecordFields.invariant (fun _ _ _ _ _ hstate hset => hstate.setField hset) hstart
      hparts
  obtain ⟨_, -, h⟩ := bind_eq_ok_iff.mp h
  obtain ⟨_, -, h⟩ := bind_eq_ok_iff.mp h
  obtain ⟨_, -, h⟩ := bind_eq_ok_iff.mp h
  obtain ⟨_, -, h⟩ := bind_eq_ok_iff.mp h
  obtain ⟨_, -, h⟩ := bind_eq_ok_iff.mp h
  cases h
  refine ⟨?_, hsound.createdAt, hsound.updatedAt⟩
  show ∀ declaration ∈ parts.parameters.getD [], declaration.HasReadDefault
  cases hparameters : parts.parameters with
  | none => exact List.forall_mem_nil _
  | some declarations => exact hsound.parameters declarations hparameters

end Rule

end Tariff
