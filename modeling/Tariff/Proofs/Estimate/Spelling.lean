/-
# Spellings of countries

Rules are found for a country whatever the case of its code, but a calculation is counted under the
code as it was spelled. So the calculations of a country are spread over as many counters as there
are spellings of its code.

* `CostCall.codes` : the codes for which costs are calculated;
* `increase_run` : what the counter of a code says about a run of calculations;
* `count_eq_countP_iff` : when a counter misses no calculation of its country;
* `calculations_counted_by_spelling` : how the calculations of a country are counted.
-/
import Mathlib.Algebra.BigOperators.Group.List.Lemmas
import Tariff.Proofs.Estimate.Counters

namespace Tariff

/-! ## Runs -/

/-- What costs are asked for. -/
inductive CostQuestion where
  | cost (country : String)
  | breakdown (country : String)
  | estimate (countries : List String)

/-- A calculation of costs. -/
structure CostCall where
  catalog : Catalog
  settings : EngineSettings
  bag : ParameterBag
  date : Date
  question : CostQuestion

namespace CostCall

/-- The events of a calculation of costs. -/
def events (call : CostCall) : List Event :=
  match call.question with
  | .cost country => (call.catalog.cost call.settings call.bag call.date country).events
  | .breakdown country => (call.catalog.breakdown call.settings call.bag call.date country).events
  | .estimate countries => (call.catalog.estimate call.settings call.bag call.date countries).events

/-- The codes for which a call calculates costs, as they are spelled. -/
def calculated (call : CostCall) : List String :=
  match call.question with
  | .cost country => [country]
  | .breakdown country => [country]
  | .estimate countries =>
    call.catalog.calculatedCountries call.settings call.bag call.date countries

/-- Whether a calculation for a code succeeds. -/
def succeeds (call : CostCall) (country : String) : Bool :=
  (call.catalog.breakdown call.settings call.bag call.date country).outcome.isOk

/-- The codes of the calculations of a call that succeed, or of those that fail. -/
def codes (succeeded : Bool) (call : CostCall) : List String :=
  call.calculated.filter fun country => call.succeeds country == succeeded

theorem events_eq (call : CostCall) :
    call.events = call.calculated.flatMap fun country =>
      (call.catalog.breakdown call.settings call.bag call.date country).events := by
  rw [events, calculated]
  cases call.question with
  | cost country =>
    dsimp only
    rw [Catalog.cost, Metered.events_bind_pure, List.flatMap_singleton]
  | breakdown country => rw [List.flatMap_singleton]
  | estimate countries => exact Catalog.events_estimate

end CostCall

/-- The series of calculations are those of their codes and their success. -/
theorem calculationSeries_inj {code other : String} {succeeded otherSucceeded : Bool} :
    calculationSeries code succeeded = calculationSeries other otherSucceeded ↔
      code = other ∧ succeeded = otherSucceeded := by
  cases succeeded <;> cases otherSucceeded <;> simp [calculationSeries]

/-- A call raises the counter of a code once for each of its calculations for the code. -/
theorem increase_call (call : CostCall) (code : String) (succeeded : Bool) :
    increase (calculationSeries code succeeded) call.events = (call.codes succeeded).count code := by
  rw [call.events_eq, CostCall.codes, List.count, List.countP_filter]
  apply increase_flatMap
  intro country _
  rw [Catalog.increase_breakdown rfl, CostCall.succeeds]
  simp only [calculationSeries_inj, Bool.and_eq_true, beq_iff_eq]
  exact if_congr (and_congr eq_comm eq_comm) rfl rfl

/-- A run of calls raises the counter of a code once for each of its calculations for the code. -/
theorem increase_run (run : List CostCall) (code : String) (succeeded : Bool) :
    increase (calculationSeries code succeeded) (run.flatMap CostCall.events) =
      (run.flatMap (CostCall.codes succeeded)).count code := by
  induction run with
  | nil => rfl
  | cons call run ih =>
    rw [List.flatMap_cons, List.flatMap_cons, increase_append, List.count_append, increase_call, ih]

/-! ## Spellings -/

/-- Among elements of a kind one makes up all of them when there is no other. -/
theorem count_eq_countP_iff {α : Type} [BEq α] [LawfulBEq α] {p : α → Bool} {a : α}
    (ha : p a = true) (l : List α) :
    l.count a = l.countP p ↔ ∀ b ∈ l, p b = true → b = a := by
  have hsplit : l.countP p = l.count a + l.countP fun b => p b && b != a := by
    rw [List.countP_eq_countP_filter_add l p (· == a), List.countP_filter, List.countP_filter,
      List.count]
    congr 1
    apply List.countP_congr
    intro b _
    rw [Bool.and_eq_true, beq_iff_eq]
    exact ⟨And.right, fun hb => ⟨hb ▸ ha, hb⟩⟩
  rw [hsplit, eq_comm, Nat.add_eq_left, List.countP_eq_zero]
  simp

/-- **Calculations are counted by spelling.** After any run of calls the counter of a code tells how
many calculations were asked for with exactly this code and ended as the counter says. Those for all
spellings of the code are the sum of the counters of the spellings, so that its own counter misses
none exactly if there is no other spelling among them. -/
theorem calculations_counted_by_spelling (run : List CostCall) (code : String) (succeeded : Bool) :
    let codes := run.flatMap (CostCall.codes succeeded)
    let events := run.flatMap CostCall.events
    increase (calculationSeries code succeeded) events = codes.count code ∧
    ((codes.dedup.filter (sameIgnoringCase code)).map fun spelling =>
      increase (calculationSeries spelling succeeded) events).sum =
        codes.countP (sameIgnoringCase code) ∧
    (increase (calculationSeries code succeeded) events = codes.countP (sameIgnoringCase code) ↔
      ∀ spelling ∈ codes, sameIgnoringCase code spelling = true → spelling = code) := by
  intro codes events
  have hincrease : ∀ spelling,
      increase (calculationSeries spelling succeeded) events = codes.count spelling :=
    fun spelling => increase_run run spelling succeeded
  have hself : sameIgnoringCase code code = true := sameIgnoringCase_iff.mpr rfl
  simp only [hincrease]
  exact ⟨trivial, List.sum_map_count_dedup_filter_eq_countP _ _, count_eq_countP_iff hself codes⟩

/-- Germany is asked for twice, once by its code in lower case, and counted once. -/
theorem calculations_counted_by_spelling_lower_case :
    let call : String → CostCall := fun country =>
      ⟨.empty, {}, .empty, ⟨2024, 2, 29, by decide⟩, .breakdown country⟩
    let run := [call "DE", call "de"]
    increase (calculationSeries "DE" true) (run.flatMap CostCall.events) = 1 ∧
    (run.flatMap (CostCall.codes true)).countP (sameIgnoringCase "DE") = 2 := by
  intro call run
  obtain ⟨tally, htally⟩ := exists_ok_iff_isOk.mpr
    (show (tallyRules {} .empty []).outcome.isOk = true by decide +kernel)
  have hcodes : ∀ country, (call country).codes true = [country] := by
    intro country
    have hnone : Catalog.empty.applicable ⟨country, none, (call country).date⟩ = [] :=
      List.mergeSort_nil
    have hsucceeds : (call country).succeeds country = true :=
      exists_ok_iff_isOk.mp ⟨_, Catalog.breakdown_eq_ok_iff.mpr ⟨tally, hnone ▸ htally, rfl⟩⟩
    simp [CostCall.codes, CostCall.calculated, call, hsucceeds]
  have hrun : run.flatMap (CostCall.codes true) = ["DE", "de"] := by
    simp [run, hcodes]
  have hupper : sameIgnoringCase "DE" "DE" = true := sameIgnoringCase_iff.mpr rfl
  have hlower : sameIgnoringCase "DE" "de" = true := sameIgnoringCase_iff.mpr (by decide)
  rw [increase_run, hrun]
  exact ⟨by decide, by simp [hupper, hlower]⟩

end Tariff
