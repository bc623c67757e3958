/-
# Breakdowns after a change of one rule

All rules see the same parameters and none sees the result of another one. So a change that
concerns one id does not show in the breakdowns of countries and days for which neither the old nor
the new rule of the id is applicable, and in the others it leaves what is said about the rules of
other ids.

* `Tally.Accounts.eq_of_filter` : tallies agree on the rules that they share;
* `change_concerns_one_rule` : a change of one rule is local.
-/
import Tariff.Proofs.Catalog.Locality
import Tariff.Proofs.Estimate.Breakdown

namespace Tariff

variable {settings : EngineSettings} {bag : ParameterBag}

/-! ## Tallies -/

/-- There is one entry for a rule. -/
theorem rightUnique_lists : Relator.RightUnique (AppliedRule.Lists bag) := by
  rintro compiled ⟨id, name, type, amount⟩ ⟨otherId, otherName, otherType, otherAmount⟩
    hfirst hsecond
  have hamount := hfirst.amount.symm.trans hsecond.amount
  cases hamount
  obtain rfl : id = otherId := hfirst.id.trans hsecond.id.symm
  obtain rfl : name = otherName := hfirst.name.trans hsecond.name.symm
  obtain rfl : type = otherType := hfirst.type.trans hsecond.type.symm
  rfl

namespace Tally

variable {rules others : List CompiledRule} {tally first second : Tally}

/-- What a tally says about some of its rules depends on these only. -/
theorem Accounts.filter (h : tally.Accounts bag rules) (p : String → Bool) :
    tally.skipped.filter p = ((rules.filter fun one => p one.id).filter fun one =>
        one.isSkipped bag).map CompiledRule.id ∧
      List.Forall₂ (AppliedRule.Lists bag)
        ((rules.filter fun one => p one.id).filter fun one => !one.isSkipped bag)
        (tally.applied.filter fun entry => p entry.id) := by
  refine ⟨?_, ?_⟩
  · rw [h.skipped, List.filter_map, List.filter_filter, List.filter_filter]
    congr 2
    funext one
    exact Bool.and_comm _ _
  · have hsame : ∀ one entry, AppliedRule.Lists bag one entry →
        (p one.id = true ↔ p entry.id = true) := by
      intro one entry hlists
      rw [hlists.id]
    have hfilter := List.rel_filter (p := fun one : CompiledRule => p one.id)
      (q := fun entry : AppliedRule => p entry.id) hsame h.applied
    rw [List.filter_filter] at hfilter ⊢
    simpa only [Bool.and_comm] using hfilter

/-- Two tallies say the same about the rules that they share. -/
theorem Accounts.eq_of_filter (hfirst : first.Accounts bag rules)
    (hsecond : second.Accounts bag others) (p : String → Bool)
    (h : rules.filter (fun one => p one.id) = others.filter fun one => p one.id) :
    first.applied.filter (fun entry => p entry.id) =
        second.applied.filter (fun entry => p entry.id) ∧
      first.skipped.filter p = second.skipped.filter p := by
  obtain ⟨hskipped, happlied⟩ := hfirst.filter p
  obtain ⟨hotherSkipped, hotherApplied⟩ := hsecond.filter p
  rw [h] at hskipped happlied
  exact ⟨List.right_unique_forall₂' rightUnique_lists happlied hotherApplied,
    hskipped.trans hotherSkipped.symm⟩

end Tally

namespace Catalog

/-! ## Breakdowns -/

/-- A breakdown depends on the applicable rules only. -/
theorem breakdown_of_applicable {catalog next : Catalog} {date : Date} {country : String}
    (h : next.applicable ⟨country, none, date⟩ = catalog.applicable ⟨country, none, date⟩) :
    next.breakdown settings bag date country = catalog.breakdown settings bag date country := by
  rw [breakdown, breakdown, h]

/-- **A change of one rule is local.** Where neither the old rule of the id nor the new one is asked
for, queries and breakdowns give what they gave before. Otherwise the applicable rules of other ids
are the same and in the same order; among them the old rule stood at the place of its priority and
its id, and the new one stands at its own. Two breakdowns before and after agree on the rules of
other ids: which of them apply, with which amounts, and which are skipped. -/
theorem change_concerns_one_rule {catalog : Catalog} (hreachable : catalog.Reachable)
    {change : CatalogChange} {id : String} (hconcerns : change.Concerns id) :
    let next := catalog.after change
    let old := catalog.get? id
    let new := next.get? id
    (∀ query : RuleQuery, (∀ one ∈ old, query.accepts one.rule = false) →
      (∀ one ∈ new, query.accepts one.rule = false) →
      next.applicable query = catalog.applicable query) ∧
    (∀ country date,
      (∀ one ∈ old, RuleQuery.accepts ⟨country, none, date⟩ one.rule = false) →
      (∀ one ∈ new, RuleQuery.accepts ⟨country, none, date⟩ one.rule = false) →
      ∀ settings bag, next.breakdown settings bag date country =
        catalog.breakdown settings bag date country) ∧
    (∀ query,
      let others := (catalog.applicable query).filter fun one => one.id != id
      Inserted (accepted? query old) others (catalog.applicable query) ∧
      Inserted (accepted? query new) others (next.applicable query)) ∧
    ∀ settings bag date country before after,
      (catalog.breakdown settings bag date country).outcome = .ok before →
      (next.breakdown settings bag date country).outcome = .ok after →
      before.applied.filter (fun entry => entry.id != id) =
          after.applied.filter (fun entry => entry.id != id) ∧
        before.skipped.filter (· != id) = after.skipped.filter (· != id) := by
  intro next old new
  have hsound := hreachable.sound
  have hnext : next.Sound := hsound.of_effect (effect_after catalog change)
  refine ⟨?_, ?_, ?_, ?_⟩
  · intro query hold hnew
    exact hsound.applicable_after hconcerns hold hnew
  · intro country date hold hnew settings bag
    exact breakdown_of_applicable (hsound.applicable_after hconcerns hold hnew)
  · intro query others
    have hothers : (next.applicable query).filter (fun one => one.id != id) = others :=
      hsound.filter_applicable_after hconcerns query
    refine ⟨hsound.inserted_applicable query id, ?_⟩
    rw [← hothers]
    exact hnext.inserted_applicable query id
  · intro settings bag date country before after hbefore hafter
    obtain ⟨first, hfirst, rfl⟩ := breakdown_eq_ok_iff.mp hbefore
    obtain ⟨second, hsecond, rfl⟩ := breakdown_eq_ok_iff.mp hafter
    have hshared := hsound.filter_applicable_after hconcerns ⟨country, none, date⟩
    exact (accounts_of_tallyRules hfirst).1.eq_of_filter (accounts_of_tallyRules hsecond).1
      (fun other => other != id) hshared.symm

/-- A surcharge that loses its condition applies from then on, and the fee stays as it was; other
countries do not notice. -/
theorem change_concerns_one_rule_surcharge :
    let bag : ParameterBag := Table.ofList [("turnover", .integer 100)]
    let date : Date := ⟨2024, 2, 29, by decide⟩
    let change := CatalogChange.update (plainRule "surcharge" "DE" "25" none)
    let next := feeWithSurcharge.after change
    feeWithSurcharge.Reachable ∧ change.Concerns "surcharge" ∧
    next.breakdown {} bag date "FR" = feeWithSurcharge.breakdown {} bag date "FR" ∧
    ∃ before after, (feeWithSurcharge.breakdown {} bag date "DE").outcome = .ok before ∧
      (next.breakdown {} bag date "DE").outcome = .ok after ∧
      before.skipped = ["surcharge"] ∧ after.skipped = [] ∧
      before.applied.filter (fun entry => entry.id != "surcharge") =
        after.applied.filter fun entry => entry.id != "surcharge" := by
  intro bag date change next
  have hreachable : feeWithSurcharge.Reachable := ⟨_, rfl⟩
  have hconcerns : change.Concerns "surcharge" := rfl
  obtain ⟨-, hcountries, -, hbreakdowns⟩ := change_concerns_one_rule hreachable hconcerns
  have hbefore : feeWithSurcharge.applicable ⟨"DE", none, date⟩ =
      feeWithSurcharge.compiledRules.filter fun one =>
        RuleQuery.accepts ⟨"DE", none, date⟩ one.rule :=
    applicable_of_pairwise (by decide +kernel)
  have hafter : next.applicable ⟨"DE", none, date⟩ =
      next.compiledRules.filter fun one => RuleQuery.accepts ⟨"DE", none, date⟩ one.rule :=
    applicable_of_pairwise (by decide +kernel)
  have hbefore : (feeWithSurcharge.breakdown {} bag date "DE").outcome.toOption.map
      CountryBreakdown.skipped = some ["surcharge"] := by
    rw [breakdown, hbefore]
    decide +kernel
  have hafter : (next.breakdown {} bag date "DE").outcome.toOption.map
      CountryBreakdown.skipped = some [] := by
    rw [breakdown, hafter]
    decide +kernel
  obtain ⟨before, hbefore, hskipped⟩ := exists_of_toOption_map hbefore
  obtain ⟨after, hafter, hnone⟩ := exists_of_toOption_map hafter
  have hfrance := hcountries "FR" date (by decide +kernel) (by decide +kernel) {} bag
  exact ⟨hreachable, hconcerns, hfrance, before, after, hbefore, hafter, hskipped, hnone,
    (hbreakdowns {} bag date "DE" before after hbefore hafter).1⟩

end Catalog

end Tariff
