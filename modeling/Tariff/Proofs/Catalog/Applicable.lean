/-
# Applicable rules

The rules of a catalog that a query asks for: which ones they are, and in which order.

* `mem_applicable` : which rules are applicable;
* `Sound.pairwise_applicable` : they are in strictly rising order, so that none comes twice;
* `Sound.selectRules_eq_applicable` : however the rules of a catalog are listed, the same ones are
  selected;
* `applicable_whatever_the_listing` : what is known of a query's result.
-/
import Mathlib.Data.List.Nodup
import Tariff.Proofs.Catalog.Invariant
import Tariff.Proofs.Rule.Order

namespace Tariff

namespace Catalog

variable {catalog : Catalog} {query : RuleQuery}

theorem mem_applicable {compiled : CompiledRule} :
    compiled ∈ catalog.applicable query ↔
      compiled ∈ catalog.compiledRules ∧ query.accepts compiled.rule = true :=
  mem_selectRules

/-- Rules that are stored in order are applicable in the order in which they are stored. -/
theorem applicable_of_pairwise
    (h : (catalog.compiledRules.filter fun one => query.accepts one.rule).Pairwise
      fun a b => a.rule.precedes b.rule = true) :
    catalog.applicable query = catalog.compiledRules.filter fun one => query.accepts one.rule :=
  selectRules_of_pairwise h

theorem Sound.nodup_applicable (h : catalog.Sound) :
    ((catalog.applicable query).map CompiledRule.id).Nodup :=
  nodup_selectRules h.nodup_ids

theorem Sound.pairwise_applicable (h : catalog.Sound) :
    (catalog.applicable query).Pairwise fun a b => a.rule.ComesBefore b.rule :=
  pairwise_selectRules h.nodup_ids

/-! ## Listings -/

/-- However the rules of a catalog are listed, the applicable ones are selected. -/
theorem Sound.selectRules_eq_applicable (h : catalog.Sound) {listed : List CompiledRule}
    (hperm : listed.Perm catalog.compiledRules) :
    selectRules CompiledRule.rule query listed = catalog.applicable query :=
  selectRules_of_perm hperm h.nodup_ids

/-- **What is applicable does not depend on the listing.** These are the stored rules that a query
asks for, each once, in strictly rising order of their priorities and, where these are equal, of the
bytes of their ids. Any catalog with the same entries, in whatever order it holds them, gives the
same list, and so does the selection from the stored rules in whatever order they are listed. From
things in general, which may have the same ids, those that the query asks for are selected, in that
order, and those that agree in priority and id in the order in which they were listed. -/
theorem applicable_whatever_the_listing (hreachable : catalog.Reachable) (query : RuleQuery) :
    let rules := catalog.applicable query
    (∀ compiled, compiled ∈ rules ↔ compiled ∈ catalog.compiledRules ∧
      sameIgnoringCase compiled.rule.country query.country = true ∧
      compiled.rule.effectiveFrom ≤ query.date ∧
      (∀ last, compiled.rule.effectiveTo = some last → query.date ≤ last) ∧
      ∀ type, query.type = some type → compiled.rule.type = type) ∧
    rules.Nodup ∧
    rules.Pairwise (fun a b => a.rule.priority < b.rule.priority ∨
      a.rule.priority = b.rule.priority ∧ utf8Bytes a.id < utf8Bytes b.id) ∧
    (∀ other : Catalog, other.rules.entries.Perm catalog.rules.entries →
      other.applicable query = rules) ∧
    (∀ listed : List CompiledRule, listed.Perm catalog.compiledRules →
      selectRules CompiledRule.rule query listed = rules) ∧
    ∀ {α : Type} (ruleOf : α → Rule) (carriers : List α),
      let accepted := carriers.filter fun carrier => query.accepts (ruleOf carrier)
      let selected := selectRules ruleOf query carriers
      selected.Perm accepted ∧
      selected.Pairwise (fun a b => (ruleOf a).priority < (ruleOf b).priority ∨
        (ruleOf a).priority = (ruleOf b).priority ∧
          utf8Bytes (ruleOf a).id ≤ utf8Bytes (ruleOf b).id) ∧
      ∀ priority id,
        selected.filter (fun carrier =>
          (ruleOf carrier).priority == priority && (ruleOf carrier).id == id) =
        accepted.filter fun carrier =>
          (ruleOf carrier).priority == priority && (ruleOf carrier).id == id := by
  intro rules
  have hsound := hreachable.sound
  refine ⟨?_, hsound.nodup_applicable.of_map _, ?_, ?_, ?_, ?_⟩
  · intro compiled
    rw [mem_applicable, accepts_iff]
  · refine hsound.pairwise_applicable.imp ?_
    intro a b hbefore
    exact Rule.comesBefore_iff.mp hbefore
  · intro other hperm
    exact hsound.selectRules_eq_applicable (hperm.map Prod.snd)
  · intro listed hperm
    exact hsound.selectRules_eq_applicable hperm
  · intro α ruleOf carriers accepted selected
    refine ⟨selectRules_perm, ?_, fun priority id => filter_selectRules priority id⟩
    refine pairwise_precedes_selectRules.imp ?_
    intro a b hprecedes
    exact Rule.precedes_iff_bytes.mp hprecedes

/-! ## Rules for examples -/

/-- A rule with nothing but its formulas, in force from 2023 on. -/
def plainRule (id country expression : String) (condition : Option String) : Rule where
  id := id
  name := id
  country := country
  type := .baseFee
  expression := expression
  condition := condition
  priority := 1
  effectiveFrom := ⟨2023, 1, 1, by decide⟩
  effectiveTo := none
  parameters := []
  description := none
  createdAt := none
  updatedAt := none

/-- Two fees of one priority, the second of which has the smaller id. -/
def twoFees : Catalog :=
  empty.afterAll [.load (plainRule "zone" "DE" "1" none), .load (plainRule "area" "DE" "1" none)]

/-- The smaller id comes first, although its rule was stored last. -/
theorem applicable_whatever_the_listing_two_fees :
    let query : RuleQuery := ⟨"DE", none, ⟨2024, 2, 29, by decide⟩⟩
    twoFees.Reachable ∧ twoFees.compiledRules.reverse.Perm twoFees.compiledRules ∧
    twoFees.compiledRules.map CompiledRule.id = ["zone", "area"] ∧
    (twoFees.applicable query).map CompiledRule.id = ["area", "zone"] := by
  intro query
  have hreachable : twoFees.Reachable := ⟨_, rfl⟩
  have hperm := List.reverse_perm twoFees.compiledRules
  obtain ⟨-, -, -, -, hlisted, -⟩ := applicable_whatever_the_listing hreachable query
  have hselected : selectRules CompiledRule.rule query twoFees.compiledRules.reverse =
      twoFees.compiledRules.reverse.filter fun one => query.accepts one.rule :=
    selectRules_of_pairwise (by decide +kernel)
  refine ⟨hreachable, hperm, by decide +kernel, ?_⟩
  rw [← hlisted _ hperm, hselected]
  decide +kernel

end Catalog

end Tariff
