/-
# Changes that fail

A change of a single rule fails for a text that holds no rule, for a rule that is rejected, or for
an id that is not there. Whatever the reason, the catalog stays as it was, its version included. A
change that succeeds does what it is asked for and nothing else.

* `Refuses` : the reasons for which a change fails;
* `failsWith_iff` : a change fails for these reasons only;
* `after_of_failsWith` : a change that fails leaves the catalog;
* `stores_of_load`, `removes_of_delete` : what a change does that succeeds;
* `failed_change_leaves_catalog` : all of this for the catalogs that arise from the empty one.
-/
import Tariff.Proofs.Catalog.Locality
import Tariff.Proofs.Rule.Acceptance

namespace Tariff

/-- The names that are left when one is removed. -/
theorem Table.names_erase {α : Type} (t : Table α) (name : String) :
    (t.erase name).names = t.names.filter (· != name) := by
  simp only [names, erase, List.filter_map, Function.comp_def]

namespace Catalog

variable {catalog : Catalog} {change : CatalogChange} {rule : Rule} {error : RuleError}

/-! ## Failures -/

/-- A change of a single rule has an error as its result. -/
inductive FailsWith (catalog : Catalog) : CatalogChange → RuleError → Prop where
  | load {rule : Rule} {error : RuleError} (h : (catalog.load rule).1 = .error error) :
      FailsWith catalog (.load rule) error
  | loadText {text : String} {error : RuleError} (h : (catalog.loadText text).1 = .error error) :
      FailsWith catalog (.loadText text) error
  | update {rule : Rule} {error : RuleError} (h : (catalog.update rule).1 = .error error) :
      FailsWith catalog (.update rule) error
  | delete {id : String} {error : RuleError} (h : (catalog.delete id).1 = .error error) :
      FailsWith catalog (.delete id) error

/-- Why a change of a single rule fails: its text holds no rule, its rule is rejected for a flaw or
for a formula that cannot be read, or the id that it is about is not there. Whether an id is there
counts before the rule. -/
inductive Refuses (catalog : Catalog) : CatalogChange → RuleError → Prop where
  | rejected {rule : Rule} {error : RuleError} (h : rule.Rejected error) :
      Refuses catalog (.load rule) error
  | unreadable {text : String} {error : RuleError} (h : Rule.ofText text = .error error) :
      Refuses catalog (.loadText text) error
  | rejectedText {text : String} {rule : Rule} {error : RuleError}
      (htext : Rule.ofText text = .ok rule) (h : rule.Rejected error) :
      Refuses catalog (.loadText text) error
  | rejectedUpdate {rule : Rule} {error : RuleError} (hcontains : catalog.contains rule.id = true)
      (h : rule.Rejected error) : Refuses catalog (.update rule) error
  | unknownUpdate {rule : Rule} (h : catalog.contains rule.id = false) :
      Refuses catalog (.update rule) (.ruleNotFound rule.id)
  | unknownDelete {id : String} (h : catalog.contains id = false) :
      Refuses catalog (.delete id) (.ruleNotFound id)

theorem update_of_contains (h : catalog.contains rule.id = true) :
    catalog.update rule = catalog.load rule :=
  if_pos h

theorem update_of_not_contains (h : catalog.contains rule.id = false) :
    catalog.update rule = (.error (.ruleNotFound rule.id), catalog) :=
  if_neg (Bool.eq_false_iff.mp h)

theorem delete_of_not_contains {id : String} (h : catalog.contains id = false) :
    catalog.delete id = (.error (.ruleNotFound id), catalog) :=
  if_neg (Bool.eq_false_iff.mp h)

theorem load_eq_error_iff : (catalog.load rule).1 = .error error ↔ rule.Rejected error := by
  rw [← @compile_eq_error_iff rule catalog.version, load]
  cases rule.compile catalog.version <;> simp

/-- A change of a single rule fails exactly for one of the reasons. -/
theorem failsWith_iff : catalog.FailsWith change error ↔ catalog.Refuses change error := by
  constructor
  · intro h
    cases h with
    | load h => exact .rejected (load_eq_error_iff.mp h)
    | @loadText text error h =>
      rw [loadText] at h
      cases htext : Rule.ofText text with
      | error fault =>
        rw [htext] at h
        cases h
        exact .unreadable htext
      | ok rule =>
        rw [htext] at h
        exact .rejectedText htext (load_eq_error_iff.mp (map_eq_error_iff.mp h))
    | @update rule error h =>
      rw [update] at h
      split at h
      · next hcontains => exact .rejectedUpdate hcontains (load_eq_error_iff.mp h)
      · next hcontains =>
        cases h
        exact .unknownUpdate (Bool.eq_false_iff.mpr hcontains)
    | @delete id error h =>
      rw [delete] at h
      split at h
      · cases h
      · next hcontains =>
        cases h
        exact .unknownDelete (Bool.eq_false_iff.mpr hcontains)
  · intro h
    cases h with
    | rejected h => exact .load (load_eq_error_iff.mpr h)
    | unreadable h => exact .loadText (by rw [loadText, h])
    | rejectedText htext h =>
      refine .loadText ?_
      rw [loadText, htext]
      exact map_eq_error_iff.mpr (load_eq_error_iff.mpr h)
    | rejectedUpdate hcontains h =>
      refine .update ?_
      rw [update_of_contains hcontains]
      exact load_eq_error_iff.mpr h
    | unknownUpdate hunknown => exact .update (by rw [update_of_not_contains hunknown])
    | unknownDelete hunknown => exact .delete (by rw [delete_of_not_contains hunknown])

theorem load_of_rejected (h : rule.Rejected error) : (catalog.load rule).2 = catalog := by
  rw [load, compile_eq_error_iff.mpr h]

/-- A change that fails leaves the catalog as it was, its version included. -/
theorem after_of_failsWith (h : catalog.FailsWith change error) :
    catalog.after change = catalog := by
  cases failsWith_iff.mp h with
  | rejected h => exact load_of_rejected h
  | unreadable h => rw [after, loadText, h]
  | rejectedText htext h =>
    rw [after, loadText, htext]
    exact load_of_rejected h
  | rejectedUpdate hcontains h =>
    rw [after, update_of_contains hcontains]
    exact load_of_rejected h
  | unknownUpdate hunknown => rw [after, update_of_not_contains hunknown]
  | unknownDelete hunknown => rw [after, delete_of_not_contains hunknown]

/-! ## Successes -/

/-- The catalog after a rule has been stored: it is compiled with the next version and stands under
its id, and the entries of other ids are as they were. -/
structure Stores (catalog : Catalog) (rule : Rule) (next : Catalog) : Prop where
  version : next.version = catalog.version + 1
  compiled : ∃ compiled, rule.compile catalog.version = .ok compiled ∧
    next.get? rule.id = some compiled
  others : ∀ id, id ≠ rule.id → next.get? id = catalog.get? id

/-- The catalog after a rule has been removed: there is none of its id, the entries of other ids are
as they were and in the same order, and so is the version. A query finds the others. -/
structure Removes (catalog : Catalog) (id : String) (next : Catalog) : Prop where
  version : next.version = catalog.version
  absent : next.get? id = none
  others : ∀ other, other ≠ id → next.get? other = catalog.get? other
  ids : next.ids = catalog.ids.filter (· != id)
  applicable : ∀ query, next.applicable query =
    (catalog.applicable query).filter fun one => one.id != id

theorem stores_of_load (h : (catalog.load rule).1 = .ok ()) :
    catalog.Stores rule (catalog.load rule).2 := by
  rw [load] at h ⊢
  cases hcompile : rule.compile catalog.version with
  | error error =>
    rw [hcompile] at h
    cases h
  | ok compiled =>
    have hid : compiled.id = rule.id := congrArg Rule.id (rule_of_compile hcompile)
    refine ⟨version_of_compile hcompile, ⟨compiled, hcompile, ?_⟩, ?_⟩
    · rw [← hid]
      exact Table.get?_insert_self catalog.rules compiled.id compiled
    · intro id hne
      rw [← hid] at hne
      exact Table.get?_insert_of_ne catalog.rules compiled hne

/-- An id that is there is removed. -/
theorem delete_eq_ok_iff {id : String} :
    (catalog.delete id).1 = .ok () ↔ catalog.contains id = true := by
  rw [delete]
  split
  · next h => simp [h]
  · next h => simp [h]

/-- An update succeeds only for an id that is there. -/
theorem contains_of_update (h : (catalog.update rule).1 = .ok ()) :
    catalog.contains rule.id = true := by
  rw [update] at h
  split at h
  · next hcontains => exact hcontains
  · cases h

/-- A text that is loaded holds a rule, which is loaded. -/
theorem loadText_eq_ok_iff {text id : String} :
    (catalog.loadText text).1 = .ok id ↔ ∃ rule, Rule.ofText text = .ok rule ∧ rule.id = id ∧
      (catalog.load rule).1 = .ok () ∧ (catalog.loadText text).2 = (catalog.load rule).2 := by
  rw [loadText]
  cases htext : Rule.ofText text with
  | error error => simp
  | ok rule =>
    cases hload : (catalog.load rule).1 with
    | error error => simp [hload, Except.map]
    | ok done => simp [hload, Except.map]

/-- Removing the rule of an id from a sound catalog removes that rule and nothing else. -/
theorem Sound.removes_of_delete (hsound : catalog.Sound) {id : String}
    (h : catalog.contains id = true) : catalog.Removes id (catalog.delete id).2 := by
  have hnext : (catalog.delete id).2 = { catalog with rules := catalog.rules.erase id } := by
    rw [delete, if_pos h]
  have habsent : (catalog.delete id).2.get? id = none := by
    rw [hnext]
    exact Table.get?_erase_self catalog.rules id
  refine ⟨by rw [hnext], habsent, ?_, ?_, ?_⟩
  · intro other hne
    rw [hnext]
    exact Table.get?_erase_of_ne catalog.rules hne
  · rw [hnext]
    exact Table.names_erase catalog.rules id
  · intro query
    have hconcerns : (CatalogChange.delete id).Concerns id := rfl
    have hsame := hsound.filter_applicable_after hconcerns query
    -- None of the rules that are still applicable has the id.
    rw [← hsame]
    refine (List.filter_eq_self.mpr ?_).symm
    intro one hone
    have hstored := (mem_applicable.mp hone).1
    have hafter : (catalog.after (.delete id)).Sound := hsound.of_effect (effect_after catalog _)
    have hget := hafter.get?_eq_some_iff.mpr ⟨hstored, rfl⟩
    rw [bne_iff_ne]
    rintro rfl
    rw [show catalog.after (.delete one.id) = (catalog.delete one.id).2 from rfl, habsent] at hget
    cases hget

/-- **A change that fails leaves the catalog.** A change of a single rule fails exactly for one of
the reasons, and then the catalog, its version included, is as it was. A rule that is loaded is
stored with the next version, and a text is loaded as the rule that it holds. An update that
succeeds is for an id that is there, and is the load of its rule. An id that is there, and no other,
is deleted, and nothing else is. -/
theorem failed_change_leaves_catalog (hreachable : catalog.Reachable) :
    (∀ change error, catalog.FailsWith change error → catalog.after change = catalog) ∧
    (∀ change error, catalog.FailsWith change error ↔ catalog.Refuses change error) ∧
    (∀ rule, (catalog.load rule).1 = .ok () → catalog.Stores rule (catalog.load rule).2) ∧
    (∀ text id, (catalog.loadText text).1 = .ok id ↔ ∃ rule, Rule.ofText text = .ok rule ∧
      rule.id = id ∧ (catalog.load rule).1 = .ok () ∧
      (catalog.loadText text).2 = (catalog.load rule).2) ∧
    (∀ rule, (catalog.update rule).1 = .ok () → catalog.contains rule.id = true) ∧
    (∀ rule, catalog.contains rule.id = true → catalog.update rule = catalog.load rule) ∧
    (∀ id, (catalog.delete id).1 = .ok () ↔ catalog.contains id = true) ∧
    ∀ id, (catalog.delete id).1 = .ok () → catalog.Removes id (catalog.delete id).2 := by
  refine ⟨fun _ _ => after_of_failsWith, fun _ _ => failsWith_iff, fun _ => stores_of_load,
    fun _ _ => loadText_eq_ok_iff, fun _ => contains_of_update, fun _ => update_of_contains,
    fun _ => delete_eq_ok_iff, ?_⟩
  intro id hdelete
  exact hreachable.sound.removes_of_delete (delete_eq_ok_iff.mp hdelete)

/-- A rule is stored. Then an update with the same expression and a condition that ends in an
operator fails, and the rule is removed. -/
theorem failed_change_leaves_catalog_share :
    let catalog := empty.afterAll [.load shareRule]
    let unfinished : Rule := { shareRule with condition := some "turnover +" }
    catalog.version = 1 ∧
    (∃ error, catalog.FailsWith (.update unfinished) error ∧
      catalog.Refuses (.update unfinished) error ∧
      catalog.after (.update unfinished) = catalog) ∧
    catalog.Removes "share" (catalog.delete "share").2 := by
  intro catalog unfinished
  have hreachable : catalog.Reachable := ⟨_, rfl⟩
  obtain ⟨hleaves, hrefuses, -, -, -, hupdate, hdelete, hremoves⟩ :=
    failed_change_leaves_catalog hreachable
  have hcontains : catalog.contains "share" = true := by decide +kernel
  refine ⟨by decide +kernel, ?_, hremoves "share" ((hdelete "share").mpr hcontains)⟩
  obtain ⟨error, herror⟩ : ∃ error, (catalog.update unfinished).1 = .error error := by
    apply exists_error_of_forall_ne
    intro done hdone
    have hok : (catalog.update unfinished).1.isOk = false := by decide +kernel
    rw [hdone] at hok
    cases hok
  have hfails : catalog.FailsWith (.update unfinished) error := .update herror
  exact ⟨error, hfails, (hrefuses _ _).mp hfails, hleaves _ _ hfails⟩

end Catalog

end Tariff
