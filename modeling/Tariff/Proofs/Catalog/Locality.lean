/-
# Changes of one rule

A change that concerns one id leaves the rules of all other ids. So a query finds the others as
before and in the same order, and the rule of the id, before and after the change, stands among
them at the place of its priority and its id.

* `entries_erase_after` : the entries of other ids stay;
* `inserted_some`, `Sound.inserted_applicable` : the rule of an id among the applicable ones;
* `Sound.filter_applicable_after` : the applicable rules of other ids stay;
* `Sound.applicable_after` : where the rule of the id is not asked for, all of them stay.
-/
import Tariff.Proofs.Catalog.Applicable

namespace Tariff

/-! ## Changes -/

/-- A change that concerns an id: a rule of the id is loaded, updated or deleted, or is meant to be.
A text that holds no rule cannot be loaded under any id. -/
def CatalogChange.Concerns (change : CatalogChange) (id : String) : Prop :=
  match change with
  | .load rule => rule.id = id
  | .loadText text => ∀ rule, Rule.ofText text = .ok rule → rule.id = id
  | .update rule => rule.id = id
  | .delete deleted => deleted = id
  | .loadBatch _ _ => False
  | .loadBatchText _ _ => False
  | .clear => False

namespace Catalog

variable {catalog : Catalog} {change : CatalogChange} {id : String}

theorem entries_erase_load (catalog : Catalog) (rule : Rule) :
    ((catalog.load rule).2.rules.erase rule.id).entries =
      (catalog.rules.erase rule.id).entries := by
  rw [load]
  cases hcompile : rule.compile catalog.version with
  | ok compiled =>
    have hid : compiled.id = rule.id := congrArg Rule.id (rule_of_compile hcompile)
    show ((catalog.rules.insert compiled.id compiled).erase rule.id).entries = _
    rw [hid]
    exact Table.entries_erase_insert catalog.rules rule.id compiled
  | error error => rfl

/-- A change that concerns an id leaves all entries of other ids. -/
theorem entries_erase_after (h : change.Concerns id) :
    ((catalog.after change).rules.erase id).entries = (catalog.rules.erase id).entries := by
  cases change with
  | load rule =>
    obtain rfl : rule.id = id := h
    exact entries_erase_load catalog rule
  | loadText text =>
    rw [after, loadText]
    cases htext : Rule.ofText text with
    | ok rule =>
      obtain rfl : rule.id = id := h rule htext
      exact entries_erase_load catalog rule
    | error error => rfl
  | update rule =>
    obtain rfl : rule.id = id := h
    rw [after, update]
    split
    · exact entries_erase_load catalog rule
    · rfl
  | delete deleted =>
    obtain rfl : deleted = id := h
    rw [after, delete]
    split
    · exact Table.entries_erase_erase catalog.rules deleted
    · rfl
  | loadBatch policy rules => exact h.elim
  | loadBatchText policy text => exact h.elim
  | clear => exact h.elim

/-- The rules of a sound catalog without that of an id. -/
theorem Sound.compiledRules_erase (h : catalog.Sound) (id : String) :
    (catalog.rules.erase id).entries.map Prod.snd =
      catalog.compiledRules.filter fun one => one.id != id := by
  rw [compiledRules, List.filter_map]
  congr 1
  apply List.filter_congr
  intro entry hentry
  rw [h.ids entry hentry]
  rfl

/-! ## Applicable rules -/

/-- The rule that a query accepts, if there is one and it does. -/
def accepted? (query : RuleQuery) (rule? : Option CompiledRule) : Option CompiledRule :=
  rule?.filter fun compiled => query.accepts compiled.rule

/-- A list of rules is another one with one more rule, if there is one, at its place: the rules on
one side come before it, and it comes before those on the other side. -/
def Inserted (rule? : Option CompiledRule) (others rules : List CompiledRule) : Prop :=
  ∃ before after, others = before ++ after ∧ rules = before ++ rule?.toList ++ after ∧
    ∀ compiled ∈ rule?, (∀ one ∈ before, one.rule.ComesBefore compiled.rule) ∧
      ∀ one ∈ after, compiled.rule.ComesBefore one.rule

theorem accepted?_eq_none_iff {query : RuleQuery} {rule? : Option CompiledRule} :
    accepted? query rule? = none ↔ ∀ one ∈ rule?, query.accepts one.rule = false := by
  simp only [accepted?, Option.filter_eq_none_iff, Bool.not_eq_true, Option.mem_def]

theorem inserted_none {others rules : List CompiledRule} :
    Inserted none others rules ↔ rules = others := by
  constructor
  · rintro ⟨before, after, rfl, rfl, -⟩
    simp
  · rintro rfl
    exact ⟨rules, [], by simp, by simp, by simp⟩

/-- Each of the rules that are in order stands at its place among those of other ids. -/
theorem inserted_some {compiled : CompiledRule} {rules : List CompiledRule}
    (hordered : rules.Pairwise fun a b => a.rule.ComesBefore b.rule)
    (hdistinct : (rules.map CompiledRule.id).Nodup) (hmem : compiled ∈ rules) :
    Inserted (some compiled) (rules.filter fun one => one.id != compiled.id) rules := by
  obtain ⟨before, after, rfl⟩ := List.append_of_mem hmem
  rw [List.pairwise_append, List.pairwise_cons] at hordered
  obtain ⟨-, ⟨hlater, -⟩, hearlier⟩ := hordered
  have hdistinct := List.pairwise_map.mp hdistinct
  rw [List.pairwise_append, List.pairwise_cons] at hdistinct
  obtain ⟨-, ⟨hidafter, -⟩, hidbefore⟩ := hdistinct
  refine ⟨before, after, ?_, by simp, ?_⟩
  · rw [List.filter_append, List.filter_cons_of_neg (by simp)]
    congr 1
    · rw [List.filter_eq_self]
      intro one hone
      simpa using hidbefore one hone compiled List.mem_cons_self
    · rw [List.filter_eq_self]
      intro one hone
      simpa using Ne.symm (hidafter one hone)
  · intro other hother
    cases hother
    exact ⟨fun one hone => hearlier one hone compiled List.mem_cons_self, hlater⟩

/-- The applicable rules are those of other ids and, at its place, the rule of the id. -/
theorem Sound.inserted_applicable (h : catalog.Sound) (query : RuleQuery) (id : String) :
    Inserted (accepted? query (catalog.get? id))
      ((catalog.applicable query).filter fun one => one.id != id) (catalog.applicable query) := by
  by_cases hsome : ∃ compiled ∈ catalog.applicable query, compiled.id = id
  · obtain ⟨compiled, hcompiled, rfl⟩ := hsome
    obtain ⟨hstored, haccepted⟩ := mem_applicable.mp hcompiled
    rw [h.get?_eq_some_iff.mpr ⟨hstored, rfl⟩, accepted?, Option.filter_some, if_pos haccepted]
    exact inserted_some h.pairwise_applicable h.nodup_applicable hcompiled
  · have hnone : accepted? query (catalog.get? id) = none := by
      rw [accepted?_eq_none_iff]
      intro compiled hget
      obtain ⟨hstored, hid⟩ := h.get?_eq_some_iff.mp hget
      rw [Bool.eq_false_iff]
      intro haccepted
      exact hsome ⟨compiled, mem_applicable.mpr ⟨hstored, haccepted⟩, hid⟩
    rw [hnone, inserted_none, eq_comm, List.filter_eq_self]
    intro one hone
    simpa using fun hid => hsome ⟨one, hone, hid⟩

/-- The applicable rules of other ids stay, in their order. -/
theorem Sound.filter_applicable_after (h : catalog.Sound) (hconcerns : change.Concerns id)
    (query : RuleQuery) :
    ((catalog.after change).applicable query).filter (fun one => one.id != id) =
      (catalog.applicable query).filter fun one => one.id != id := by
  have hnext : (catalog.after change).Sound := h.of_effect (effect_after catalog change)
  rw [applicable, applicable, ← selectRules_filter hnext.nodup_ids,
    ← selectRules_filter h.nodup_ids, ← hnext.compiledRules_erase, ← h.compiledRules_erase,
    entries_erase_after hconcerns]

/-- Where the rule of an id is applicable neither before nor after, the change does not show. -/
theorem Sound.applicable_after (h : catalog.Sound) (hconcerns : change.Concerns id)
    {query : RuleQuery} (hold : ∀ one ∈ catalog.get? id, query.accepts one.rule = false)
    (hnew : ∀ one ∈ (catalog.after change).get? id, query.accepts one.rule = false) :
    (catalog.after change).applicable query = catalog.applicable query := by
  have hnext : (catalog.after change).Sound := h.of_effect (effect_after catalog change)
  have hbefore := h.inserted_applicable query id
  have hafter := hnext.inserted_applicable query id
  rw [accepted?_eq_none_iff.mpr hold, inserted_none] at hbefore
  rw [accepted?_eq_none_iff.mpr hnew, inserted_none, h.filter_applicable_after hconcerns] at hafter
  rw [hafter, ← hbefore]

end Catalog

end Tariff
