/-
# Estimates in another order

In another order the countries have the same breakdowns, but other sums stand on the way to the
grand total. Such a sum may overflow, and its rounding may show in the total. As long as the sums
on the way are representable the order does not matter.

* `Breakdowns.unique`, `Breakdowns.of_perm` : breakdowns of countries in an order;
* `estimate_of_breakdowns` : countries that have breakdowns can be added up or overflow;
* `estimate_of_perm` : an estimate in another order;
* `estimate_depends_on_order` : orders with different totals, and an order without any.
-/
import Mathlib.Data.List.Perm.Basic
import Tariff.Proofs.Estimate.Countries

namespace Tariff

namespace Catalog

variable {catalog : Catalog} {settings : EngineSettings} {bag : ParameterBag} {date : Date}
variable {countries : List String} {breakdowns : List CountryBreakdown}

/-! ## Breakdowns in an order -/

/-- Countries have only one list of breakdowns. -/
theorem Breakdowns.unique {others : List CountryBreakdown}
    (h : catalog.Breakdowns settings bag date countries breakdowns)
    (hothers : catalog.Breakdowns settings bag date countries others) : breakdowns = others := by
  refine List.right_unique_forall₂' ?_ h hothers
  intro country one other hone hother
  rw [hone] at hother
  exact Except.ok.inj hother

/-- In another order, countries have the same breakdowns in that order. -/
theorem Breakdowns.of_perm {permuted : List String} (hperm : permuted.Perm countries)
    (h : catalog.Breakdowns settings bag date countries breakdowns) :
    ∃ others, catalog.Breakdowns settings bag date permuted others ∧ others.Perm breakdowns :=
  List.perm_comp_forall₂ hperm h

/-- The countries that come first have the breakdowns that come first. -/
theorem Breakdowns.split {before after : List String}
    (h : catalog.Breakdowns settings bag date (before ++ after) breakdowns) :
    ∃ first rest, breakdowns = first ++ rest ∧
      catalog.Breakdowns settings bag date before first ∧
      catalog.Breakdowns settings bag date after rest := by
  induction before generalizing breakdowns with
  | nil => exact ⟨[], breakdowns, rfl, .nil, h⟩
  | cons country before ih =>
    obtain ⟨breakdown, others, hbreakdown, hothers, rfl⟩ := List.forall₂_cons_left_iff.mp h
    obtain ⟨first, rest, rfl, hfirst, hrest⟩ := ih hothers
    exact ⟨breakdown :: first, rest, rfl, .cons hbreakdown hfirst, hrest⟩

/-- Countries that have breakdowns can be added up, or the sum of the totals overflows. -/
theorem estimate_of_breakdowns {currency : String}
    (hcurrency : currencyOf settings bag = .ok currency)
    (h : catalog.Breakdowns settings bag date countries breakdowns) :
    (∃ total, Decimal.checkedSum (totals breakdowns) = some total ∧
      (catalog.estimate settings bag date countries).outcome =
        .ok ⟨breakdowns, ⟨total, currency⟩⟩) ∨
    ∃ sum amount, Decimal.OverflowsAt (totals breakdowns) sum amount ∧
      (catalog.estimate settings bag date countries).outcome =
        .error (.arithmetic (.amountOverflow sum amount)) := by
  cases houtcome : (catalog.estimate settings bag date countries).outcome with
  | ok estimate =>
    obtain ⟨hbreakdowns, htotal, rfl⟩ := (estimate_eq_ok_iff hcurrency).mp houtcome
    cases h.unique hbreakdowns
    exact Or.inl ⟨estimate.total.amount, htotal, rfl⟩
  | error error =>
    obtain ⟨before, country, after, first, sum, rfl, hfirst, hsum, herror⟩ :=
      (estimate_eq_error_iff hcurrency).mp houtcome
    -- The country at which it fails has a breakdown, so that it must be the sum that fails.
    obtain ⟨start, rest, rfl, hstart, hrest⟩ := h.split
    obtain ⟨breakdown, others, hbreakdown, -, rfl⟩ := List.forall₂_cons_left_iff.mp hrest
    obtain rfl := hfirst.unique hstart
    rw [hbreakdown] at herror
    rcases herror with hfails | ⟨next, hnext, hnone, rfl⟩
    · cases hfails
    · cases hnext
      exact Or.inr ⟨sum, breakdown.total.amount,
        ⟨totals first, totals others, List.map_append, hsum, hnone⟩, rfl⟩

/-! ## Estimates in an order -/

/-- An estimate has a currency. -/
theorem currencyOf_of_estimate {estimate : CostEstimate}
    (h : (catalog.estimate settings bag date countries).outcome = .ok estimate) :
    currencyOf settings bag = .ok estimate.total.currency := by
  cases hcurrency : currencyOf settings bag with
  | ok currency => rw [((estimate_eq_ok_iff hcurrency).mp h).2.2]
  | error error =>
    rw [estimate_of_currencyOf_error hcurrency] at h
    cases h

/-- **An estimate in another order.** Countries for which there is an estimate have the same
breakdowns in any order. In another order there is an estimate as well, in the same currency,
unless the sum of the totals overflows. If the sums on the way are representable in both orders,
then it does not overflow, and the grand totals are numerically equal. They are in every order if
the country totals fit together. -/
theorem estimate_of_perm {permuted : List String} {estimate : CostEstimate}
    (hperm : permuted.Perm countries)
    (h : (catalog.estimate settings bag date countries).outcome = .ok estimate) :
    let outcome := (catalog.estimate settings bag date permuted).outcome
    ∃ breakdowns, breakdowns.Perm estimate.countries ∧
      catalog.Breakdowns settings bag date permuted breakdowns ∧
      ((∃ total, outcome = .ok ⟨breakdowns, ⟨total, estimate.total.currency⟩⟩) ∨
        ∃ sum amount, Decimal.OverflowsAt (totals breakdowns) sum amount ∧
          outcome = .error (.arithmetic (.amountOverflow sum amount))) ∧
      (Decimal.ExactlySummable (totals estimate.countries) →
        Decimal.ExactlySummable (totals breakdowns) →
        ∃ total, outcome = .ok ⟨breakdowns, total⟩ ∧ total.sameValue estimate.total = true) ∧
      ∀ digits ≤ Decimal.maxScale, Decimal.FitTogether digits (totals estimate.countries) →
        Decimal.ExactlySummable (totals estimate.countries) ∧
        Decimal.ExactlySummable (totals breakdowns) := by
  intro outcome
  have hcurrency := currencyOf_of_estimate h
  obtain ⟨hcountries, htotal, -⟩ := (estimate_eq_ok_iff hcurrency).mp h
  obtain ⟨breakdowns, hbreakdowns, hsame⟩ := hcountries.of_perm hperm
  have htotals : (totals breakdowns).Perm (totals estimate.countries) := hsame.map _
  refine ⟨breakdowns, hsame, hbreakdowns, ?_, ?_, ?_⟩
  · rcases estimate_of_breakdowns hcurrency hbreakdowns with ⟨total, -, htotal⟩ | hoverflow
    · exact Or.inl ⟨total, htotal⟩
    · exact Or.inr hoverflow
  · intro hexact hexactPermuted
    obtain ⟨other, hother, hvalue⟩ := Decimal.checkedSum_of_exactlySummable hexactPermuted
    refine ⟨⟨other, estimate.total.currency⟩,
      (estimate_eq_ok_iff hcurrency).mpr ⟨hbreakdowns, hother, rfl⟩, ?_⟩
    -- Both amounts are the exact sum of the same totals.
    have hamount : other.sameValue estimate.total.amount = true := by
      rw [Decimal.sameValue_iff, hvalue, Decimal.toRat_of_checkedSum hexact htotal,
        (htotals.map Decimal.toRat).sum_eq]
    rw [Money.sameValue, hamount, Bool.true_and, beq_iff_eq]
  · intro digits hdigits hfit
    exact ⟨hfit.exactlySummable hdigits, (hfit.perm htotals).exactlySummable hdigits⟩

/-- Whole amounts have the same total in any order. -/
theorem estimate_of_perm_whole_amounts :
    let bag : ParameterBag :=
      Table.ofList [("fee", .integer 100), ("share", .integer 3), ("levy", .integer 6)]
    let date : Date := ⟨2024, 2, 29, by decide⟩
    ["FR", "IT", "DE"].Perm ["DE", "FR", "IT"] ∧ ∃ estimate other,
      (threeFees.estimate {} bag date ["DE", "FR", "IT"]).outcome = .ok estimate ∧
      (threeFees.estimate {} bag date ["FR", "IT", "DE"]).outcome = .ok other ∧
      other.total.sameValue estimate.total = true := by
  intro bag date
  have hperm : ["FR", "IT", "DE"].Perm ["DE", "FR", "IT"] := by decide
  have hsome : (threeFees.estimate {} bag date ["DE", "FR", "IT"]).outcome.toOption.map
      (fun estimate => decide (Decimal.FitTogether 0 (totals estimate.countries))) =
      some true := by
    decide +kernel
  obtain ⟨estimate, hestimate, hfit⟩ := exists_of_toOption_map hsome
  obtain ⟨breakdowns, -, -, -, hexact, hsummable⟩ := estimate_of_perm hperm hestimate
  obtain ⟨hone, hother⟩ := hsummable 0 (Nat.zero_le _) (of_decide_eq_true hfit)
  obtain ⟨total, htotal, hsame⟩ := hexact hone hother
  exact ⟨hperm, estimate, _, hestimate, htotal, hsame⟩

/-- **The order of the countries matters.** A third of one and another third round to a different
total after a hundred than before it; and after the largest amount one can be added if one has
been taken off, but not before. -/
theorem estimate_depends_on_order :
    let date : Date := ⟨2024, 2, 29, by decide⟩
    let thirds : ParameterBag :=
      Table.ofList [("fee", .integer 100), ("share", .integer 1), ("levy", .integer 1)]
    let largest : Decimal := ⟨false, Decimal.limit - 1, 0, by decide, by decide⟩
    let large : ParameterBag :=
      Table.ofList [("fee", .decimal largest), ("share", .integer 3), ("levy", .integer (-3))]
    threeFees.Reachable ∧
    ["FR", "IT", "DE"].Perm ["DE", "FR", "IT"] ∧ ["DE", "FR", "IT"].Perm ["DE", "IT", "FR"] ∧
    (∃ estimate other,
      (threeFees.estimate {} thirds date ["DE", "FR", "IT"]).outcome = .ok estimate ∧
      (threeFees.estimate {} thirds date ["FR", "IT", "DE"]).outcome = .ok other ∧
      other.total.sameValue estimate.total = false) ∧
    (∃ estimate, (threeFees.estimate {} large date ["DE", "IT", "FR"]).outcome = .ok estimate) ∧
    ¬ ∃ other, (threeFees.estimate {} large date ["DE", "FR", "IT"]).outcome = .ok other := by
  intro date thirds largest large
  have hdown : (threeFees.estimate {} thirds date ["DE", "FR", "IT"]).outcome.toOption.map
      CostEstimate.total =
      some ⟨⟨false, 10066666666666666666666666666, 26, by decide, by decide⟩, "EUR"⟩ := by
    decide +kernel
  have hup : (threeFees.estimate {} thirds date ["FR", "IT", "DE"]).outcome.toOption.map
      CostEstimate.total =
      some ⟨⟨false, 10066666666666666666666666667, 26, by decide, by decide⟩, "EUR"⟩ := by
    decide +kernel
  obtain ⟨estimate, hestimate, htotal⟩ := exists_of_toOption_map hdown
  obtain ⟨other, hother, hotherTotal⟩ := exists_of_toOption_map hup
  refine ⟨⟨_, rfl⟩, by decide, by decide, ⟨estimate, other, hestimate, hother, ?_⟩, ?_, ?_⟩
  · rw [htotal, hotherTotal]
    decide +kernel
  · exact exists_ok_iff_isOk.mpr (by decide +kernel)
  · rw [exists_ok_iff_isOk]
    decide +kernel

end Catalog

end Tariff
