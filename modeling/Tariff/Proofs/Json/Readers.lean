/-
# What readers find

Readers go through the items of an array and the members of an object in their order. So what is
written is found by reading it part by part, and what every part leaves true of the state is true of
a record that has been read.

* `JsonReader.foldMembers_cons`, `JsonReader.items_map`, `JsonReader.map_members` : members and
  items in turn;
* `JsonReader.list_draft`, `JsonReader.text_draft`, `JsonReader.optional_draft` : written values;
* `JsonReader.forall_mem_of_list` : what is true of each item of a list that has been read;
* `JsonReader.RecordFields.invariant` : what is true of a record that has been read.
-/
import Tariff.Proofs.Json.Reading
import Tariff.Proofs.Outcome

namespace Tariff

/-- Only null is read as null. -/
theorem JsonDraft.eq_null_of_toJson {room : Nat} {draft : JsonDraft}
    (h : draft.toJson room = .ok .null) : draft = .null := by
  cases draft with
  | null => rfl
  | boolean | absent | broken => cases h
  | number literal =>
    rw [toJson] at h
    split at h <;> cases h
  | text literal =>
    rw [toJson] at h
    obtain ⟨_, -, h⟩ := bind_eq_ok_iff.mp h
    cases h
  | array | object =>
    rcases room with _ | room
    · cases h
    · rw [toJson] at h
      obtain ⟨_, -, h⟩ := bind_eq_ok_iff.mp h
      obtain ⟨_, -, h⟩ := bind_eq_ok_iff.mp h
      cases h

namespace JsonReader

variable {σ α β : Type}

/-! ## Reading what was written -/

/-- A member of an object, after those before it. -/
theorem foldMembers_cons {step : σ → String → JsonDraft → Except JsonFault σ} {state next : σ}
    {name : String} {draft : JsonDraft} (h : step state name draft = .ok next)
    (members : List (TextLiteral × JsonDraft)) :
    foldMembers step state ((.ofText name, draft) :: members) = foldMembers step next members := by
  rw [foldMembers, TextLiteral.decode_ofText]
  dsimp only [bind, Except.bind]
  rw [h]

/-- Members behind others. -/
theorem foldMembers_append {step : σ → String → JsonDraft → Except JsonFault σ} {state next : σ}
    {members : List (String × Json)}
    (h : foldMembers step state (Json.memberDrafts members) = .ok next)
    (more : List (String × Json)) :
    foldMembers step state (Json.memberDrafts (members ++ more)) =
      foldMembers step next (Json.memberDrafts more) := by
  induction members generalizing state with
  | nil =>
    cases h
    rfl
  | cons member members ih =>
    obtain ⟨name, value⟩ := member
    obtain ⟨key, hkey, h⟩ := bind_eq_ok_iff.mp h
    rw [TextLiteral.decode_ofText] at hkey
    cases hkey
    obtain ⟨between, hfirst, hothers⟩ := bind_eq_ok_iff.mp h
    rw [List.cons_append, Json.memberDrafts, foldMembers_cons hfirst]
    exact ih hothers

/-- Items that are read one by one. -/
theorem items_map {read : JsonDraft → Except JsonFault β} {draft : α → JsonDraft} {value : α → β}
    {entries : List α} (h : ∀ entry ∈ entries, read (draft entry) = .ok (value entry)) :
    items read (entries.map draft) = .ok (entries.map value) := by
  induction entries with
  | nil => rfl
  | cons entry entries ih =>
    obtain ⟨hentry, hentries⟩ := List.forall_mem_cons.mp h
    rw [List.map_cons, items, hentry, ih hentries]
    rfl

/-- Members that are collected one by one, behind others. -/
theorem foldMembers_collect {read : JsonDraft → Except JsonFault α}
    {drafts : List (TextLiteral × JsonDraft)} {entries : List (String × α)}
    (h : List.Forall₂ (fun draft entry => draft.1.decode = .ok entry.1 ∧ read draft.2 = .ok entry.2)
      drafts entries) (before : List (String × α)) :
    foldMembers (fun (entries : List (String × α)) name value => do
      let value ← read value
      return (name, value) :: entries) before drafts = .ok (entries.reverse ++ before) := by
  induction h generalizing before with
  | nil => rfl
  | @cons draft entry drafts entries hfirst _ ih =>
    obtain ⟨literal, value⟩ := draft
    obtain ⟨hname, hvalue⟩ := hfirst
    rw [foldMembers, hname]
    show (read value >>= fun value => .ok ((entry.1, value) :: before)) >>= _ = _
    rw [hvalue]
    refine (ih _).trans ?_
    rw [List.reverse_cons, List.append_assoc]
    rfl

/-- The members of an object that is read as a map. -/
theorem map_members {read : JsonReader α} {room : Nat} {drafts : List (TextLiteral × JsonDraft)}
    {entries : List (String × α)}
    (h : List.Forall₂ (fun draft entry => draft.1.decode = .ok entry.1 ∧
      read room draft.2 = .ok entry.2) drafts entries) :
    map read (room + 1) (.object drafts .closed) = .ok entries := by
  have hfold := foldMembers_collect h []
  rw [List.append_nil] at hfold
  show (foldMembers _ [] drafts >>= _) = _
  rw [hfold]
  show Except.ok entries.reverse.reverse = _
  rw [List.reverse_reverse]

theorem list_draft {read : JsonReader β} {room : Nat} (toJson : α → Json) (value : α → β)
    {entries : List α} (h : ∀ entry ∈ entries, read room (toJson entry).draft = .ok (value entry)) :
    list read (room + 1) (Json.array (entries.map toJson)).draft = .ok (entries.map value) := by
  have hitems : items (read room) (entries.map fun entry => (toJson entry).draft) =
      .ok (entries.map value) := items_map h
  rw [Json.draft, Json.itemDrafts_eq, List.map_map, list, Function.comp_def, hitems]
  rfl

theorem textAs_draft (expected : String) (room : Nat) (s : String) :
    textAs expected room (Json.text s).draft = .ok s := by
  rw [Json.draft]
  exact TextLiteral.decode_ofText s

theorem text_draft (room : Nat) (s : String) : text room (Json.text s).draft = .ok s :=
  textAs_draft "a string" room s

theorem variant_draft (variants : List (String × α)) (room : Nat) (name : String) :
    variant variants room (Json.text name).draft = lookupVariant variants name := by
  rw [Json.draft, variant, TextLiteral.decode_ofText]
  rfl

/-- An optional value is read as it was written, unless it was written as null. -/
theorem optional_draft {read : JsonReader β} {room : Nat} (toJson : α → Json) (value : α → β)
    {entry : Option α}
    (h : ∀ a, entry = some a →
      (toJson a).draft ≠ .null ∧ read room (toJson a).draft = .ok (value a)) :
    optional read room (Json.ofOption (entry.map toJson)).draft = .ok (entry.map value) := by
  cases entry with
  | none => rfl
  | some a =>
    obtain ⟨hnull, hread⟩ := h a rfl
    show optional read room (toJson a).draft = .ok (some (value a))
    unfold optional
    split
    · next hdraft => exact absurd hdraft hnull
    · rw [hread]
      rfl

/-! ## What has been read -/

/-- What has been read of a text has been read of its tree. -/
theorem read_of_readJson {read : JsonReader α} {text : String} {value : α}
    (h : readJson read text = .ok value) :
    read maxNesting (JsonDraft.ofText text).1 = .ok value := by
  obtain ⟨result, hread, h⟩ := bind_eq_ok_iff.mp h
  split at h
  · contradiction
  · cases h
    exact hread

/-- What is true of each item that can be read is true of all that have been read. -/
theorem forall_mem_of_items {read : JsonDraft → Except JsonFault α} {P : α → Prop}
    (hread : ∀ draft value, read draft = .ok value → P value) {drafts : List JsonDraft}
    {values : List α} (h : items read drafts = .ok values) : ∀ value ∈ values, P value := by
  induction drafts generalizing values with
  | nil =>
    cases h
    exact List.forall_mem_nil _
  | cons draft drafts ih =>
    obtain ⟨first, hfirst, h⟩ := bind_eq_ok_iff.mp h
    obtain ⟨others, hothers, h⟩ := bind_eq_ok_iff.mp h
    cases h
    exact List.forall_mem_cons.mpr ⟨hread draft first hfirst, ih hothers⟩

theorem forall_mem_of_list {read : JsonReader α} {P : α → Prop}
    (hread : ∀ room draft value, read room draft = .ok value → P value) {room : Nat}
    {draft : JsonDraft} {values : List α} (h : list read room draft = .ok values) :
    ∀ value ∈ values, P value := by
  unfold list at h
  split at h
  · split at h
    · contradiction
    · obtain ⟨found, hfound, h⟩ := bind_eq_ok_iff.mp h
      obtain ⟨-, -, h⟩ := bind_eq_ok_iff.mp h
      cases h
      exact forall_mem_of_items (hread _) hfound
  · contradiction

/-- What each member leaves true is true of the state after all of them. -/
theorem foldMembers_invariant {step : σ → String → JsonDraft → Except JsonFault σ} {P : σ → Prop}
    (hstep : ∀ state name draft next, P state → step state name draft = .ok next → P next)
    {start last : σ} {members : List (TextLiteral × JsonDraft)} (hstart : P start)
    (h : foldMembers step start members = .ok last) : P last := by
  induction members generalizing start with
  | nil =>
    cases h
    exact hstart
  | cons member members ih =>
    obtain ⟨literal, draft⟩ := member
    obtain ⟨name, -, h⟩ := bind_eq_ok_iff.mp h
    obtain ⟨next, hnext, h⟩ := bind_eq_ok_iff.mp h
    exact ih (hstep start name draft next hstart hnext) h

namespace RecordFields

theorem setItems_invariant {record : RecordFields σ} {P : σ → Prop}
    (hset : ∀ room state name draft next, P state → record.set room state name draft = .ok next →
      P next) {room index : Nat} {ending : Option JsonFault} {fields : List (String × Bool)}
    {items : List JsonDraft} {start last : σ} (hstart : P start)
    (h : record.setItems room ending index fields items start = .ok last) : P last := by
  induction fields generalizing index items start with
  | nil =>
    cases items with
    | nil =>
      obtain ⟨-, -, h⟩ := bind_eq_ok_iff.mp h
      cases h
      exact hstart
    | cons item items => contradiction
  | cons field fields ih =>
    obtain ⟨name, required⟩ := field
    cases items with
    | nil =>
      obtain ⟨-, -, h⟩ := bind_eq_ok_iff.mp h
      cases required with
      | false => exact ih hstart h
      | true => contradiction
    | cons item items =>
      obtain ⟨next, hnext, h⟩ := bind_eq_ok_iff.mp h
      exact ih (hset room start name item next hstart hnext) h

/-- **What each field leaves true is true of a record that has been read**, whether its fields were
given by name or in a row. -/
theorem invariant {record : RecordFields σ} {P : σ → Prop}
    (hset : ∀ room state name draft next, P state → record.set room state name draft = .ok next →
      P next) {room : Nat} {draft : JsonDraft} {start last : σ} (hstart : P start)
    (h : record.read start room draft = .ok last) : P last := by
  unfold read at h
  split at h
  · split at h
    · contradiction
    · next members _ room =>
      obtain ⟨state, hstate, h⟩ := bind_eq_ok_iff.mp h
      obtain ⟨-, -, h⟩ := bind_eq_ok_iff.mp h
      cases h
      exact foldMembers_invariant (hset room) hstart hstate
  · split at h
    · contradiction
    · exact setItems_invariant hset hstart h
  · contradiction

end RecordFields

/-- A field that was taken in has been read. -/
theorem exists_of_once {name : String} {before after : Option α} {value : Except JsonFault α}
    (h : once name before value = .ok after) :
    ∃ result, value = .ok result ∧ after = some result := by
  unfold once at h
  split at h
  · contradiction
  · obtain ⟨result, hresult, rfl⟩ := map_eq_ok_iff.mp h
    exact ⟨result, hresult, rfl⟩

end JsonReader

end Tariff
