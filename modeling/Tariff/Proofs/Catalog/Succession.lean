/-
# Successive rules

A rule that ends on the day before another one begins leaves no gap before it and does not overlap
with it. So of rules that follow one another like this, exactly one is in force on each day from
the first day of the first to the last day of the last, and none on other days.

* `FollowedBy.isEffectiveOn_iff` : a rule that is followed is in force up to the next one;
* `filter_isEffectiveOn` : which of the rules are in force on a day;
* `one_of_successive_rules_applies` : which of them are applicable.
-/
import Tariff.Proofs.Calendar.Days
import Tariff.Proofs.Catalog.Applicable
import Tariff.Proofs.Text.Letters

namespace Tariff

namespace Rule

/-- A rule is followed by another one: its last day is the day before the first day of the other. -/
def FollowedBy (a b : Rule) : Prop :=
  ∃ last, a.effectiveTo = some last ∧ b.effectiveFrom.previous? = some last

/-- A day is not before the first day of one rule and not after the last day of another one, if that
has a last day. -/
def Spans (first last : Rule) (date : Date) : Prop :=
  first.effectiveFrom ≤ date ∧ ∀ day, last.effectiveTo = some day → date ≤ day

variable {a b rule : Rule} {date : Date}

theorem isEffectiveOn_iff : rule.isEffectiveOn date = true ↔ rule.Spans rule date := by
  rw [isEffectiveOn, Spans]
  cases rule.effectiveTo with
  | none => simp
  | some last => simp

/-- A rule that is followed by another one is in force up to the first day of the other. -/
theorem FollowedBy.isEffectiveOn_iff (h : a.FollowedBy b) :
    a.isEffectiveOn date = true ↔ a.effectiveFrom ≤ date ∧ date < b.effectiveFrom := by
  obtain ⟨last, hlast, hprevious⟩ := h
  rw [Rule.isEffectiveOn_iff, Spans, hlast, ← Date.le_iff_lt_of_previous? hprevious]
  simp

/-- It begins before the other one. -/
theorem FollowedBy.effectiveFrom_lt (h : a.FollowedBy b) (hwellFormed : a.WellFormed) :
    a.effectiveFrom < b.effectiveFrom := by
  obtain ⟨last, hlast, hprevious⟩ := h
  exact (Date.le_iff_lt_of_previous? hprevious).mp (hwellFormed.window last hlast)

instance (a b : Rule) : Decidable (a.FollowedBy b) :=
  decidable_of_iff (a.effectiveTo.isSome = true ∧ b.effectiveFrom.previous? = a.effectiveTo) <| by
    rw [FollowedBy, Option.isSome_iff_exists]
    constructor
    · rintro ⟨⟨last, hlast⟩, hprevious⟩
      exact ⟨last, hlast, hprevious.trans hlast⟩
    · rintro ⟨last, hlast, hprevious⟩
      exact ⟨⟨last, hlast⟩, hprevious.trans hlast.symm⟩

end Rule

/-! ## Chains of rules -/

section

variable {first : CompiledRule} {others : List CompiledRule}

/-- The last rule of a chain does not end before the first one begins. -/
theorem effectiveFrom_le_of_isChain
    (hwellFormed : ∀ one ∈ first :: others, one.rule.WellFormed)
    (hchain : (first :: others).IsChain fun a b => a.rule.FollowedBy b.rule) {day : Date}
    (hday : ((first :: others).getLast (List.cons_ne_nil first others)).rule.effectiveTo =
      some day) : first.rule.effectiveFrom ≤ day := by
  induction others generalizing first with
  | nil => exact (hwellFormed first List.mem_cons_self).window day hday
  | cons second others ih =>
    obtain ⟨hfollowed, hrest⟩ := List.isChain_cons_cons.mp hchain
    obtain ⟨hfirst, hothers⟩ := List.forall_mem_cons.mp hwellFormed
    rw [List.getLast_cons (List.cons_ne_nil second others)] at hday
    exact Date.le_of_lt_of_le (hfollowed.effectiveFrom_lt hfirst) (ih hothers hrest hday)

/-- On a day that a chain of rules spans, one of them is in force, and on other days none is. -/
theorem filter_isEffectiveOn (hwellFormed : ∀ one ∈ first :: others, one.rule.WellFormed)
    (hchain : (first :: others).IsChain fun a b => a.rule.FollowedBy b.rule) (date : Date) :
    let last := (first :: others).getLast (List.cons_ne_nil first others)
    let inForce := (first :: others).filter fun one => one.rule.isEffectiveOn date
    (first.rule.Spans last.rule date → ∃ one, inForce = [one]) ∧
      (¬ first.rule.Spans last.rule date → inForce = []) := by
  -- The induction is on the rules that follow; the day decides on which side of the second it is.
  induction others generalizing first with
  | nil =>
    constructor
    · intro hspans
      exact ⟨first, List.filter_cons_of_pos (Rule.isEffectiveOn_iff.mpr hspans)⟩
    · intro hspans
      exact List.filter_cons_of_neg fun h => hspans (Rule.isEffectiveOn_iff.mp h)
  | cons second others ih =>
    obtain ⟨hfollowed, hrest⟩ := List.isChain_cons_cons.mp hchain
    obtain ⟨hfirst, hothers⟩ := List.forall_mem_cons.mp hwellFormed
    obtain ⟨hone, hnone⟩ := ih hothers hrest
    intro last inForce
    have hlast : last = (second :: others).getLast (List.cons_ne_nil second others) :=
      List.getLast_cons (List.cons_ne_nil second others)
    rw [← hlast] at hone hnone
    by_cases hdate : date < second.rule.effectiveFrom
    · have hlater : (second :: others).filter (fun one => one.rule.isEffectiveOn date) = [] :=
        hnone fun hspans => Date.le_iff_not_lt.mp hspans.1 hdate
      have hspans : first.rule.Spans last.rule date ↔ first.rule.isEffectiveOn date = true := by
        rw [hfollowed.isEffectiveOn_iff, and_iff_left hdate]
        refine and_iff_left_of_imp ?_
        intro hfrom day hday
        rw [hlast] at hday
        exact Date.le_of_lt_of_le hdate (effectiveFrom_le_of_isChain hothers hrest hday)
      constructor
      · intro h
        refine ⟨first, ?_⟩
        rw [← hlater]
        exact List.filter_cons_of_pos (hspans.mp h)
      · intro h
        rw [← hlater]
        exact List.filter_cons_of_neg fun heffective => h (hspans.mpr heffective)
    · have hskip : inForce = (second :: others).filter fun one => one.rule.isEffectiveOn date :=
        List.filter_cons_of_neg fun h => hdate (hfollowed.isEffectiveOn_iff.mp h).2
      have hbegun : second.rule.effectiveFrom ≤ date := Date.le_iff_not_lt.mpr hdate
      have hfrom : first.rule.effectiveFrom ≤ date :=
        Date.le_of_lt_of_le (hfollowed.effectiveFrom_lt hfirst) hbegun
      have hspans : first.rule.Spans last.rule date ↔ second.rule.Spans last.rule date := by
        rw [Rule.Spans, Rule.Spans, and_iff_right hfrom, and_iff_right hbegun]
      rw [hskip, hspans]
      exact ⟨hone, hnone⟩

end

namespace Catalog

variable {catalog : Catalog} {query : RuleQuery} {chain : List CompiledRule}

/-- Of stored rules of a country and a category, those that are in force are applicable. -/
theorem Sound.mem_filter_applicable (h : catalog.Sound)
    (hstored : ∀ one ∈ chain, one ∈ catalog.compiledRules ∧
      sameIgnoringCase one.rule.country query.country = true ∧ query.type = some one.rule.type)
    {compiled : CompiledRule} :
    compiled ∈ (catalog.applicable query).filter (fun one =>
        (chain.map CompiledRule.id).contains one.id) ↔
      compiled ∈ chain.filter fun one => one.rule.isEffectiveOn query.date := by
  rw [List.mem_filter, List.mem_filter, mem_applicable, List.contains_iff_mem, List.mem_map]
  constructor
  · rintro ⟨⟨hcompiled, haccepts⟩, one, hone, hid⟩
    -- Stored rules of one id are the same.
    obtain rfl : one = compiled :=
      List.inj_on_of_nodup_map h.nodup_ids (hstored one hone).1 hcompiled hid
    obtain ⟨-, hfrom, hto, -⟩ := accepts_iff.mp haccepts
    exact ⟨hone, Rule.isEffectiveOn_iff.mpr ⟨hfrom, hto⟩⟩
  · rintro ⟨hcompiled, heffective⟩
    obtain ⟨hmem, hcountry, htype⟩ := hstored compiled hcompiled
    obtain ⟨hfrom, hto⟩ := Rule.isEffectiveOn_iff.mp heffective
    refine ⟨⟨hmem, accepts_iff.mpr ⟨hcountry, hfrom, hto, ?_⟩⟩, compiled, hcompiled, rfl⟩
    intro type hasked
    rw [htype] at hasked
    exact Option.some.inj hasked

/-- **Successive rules neither overlap nor leave a gap.** Let stored rules of one country, whatever
the case of its code, and of one category follow one another, so that each but the last ends on the
day before the next one begins. Then from the first day of the first to the last day of the last, or
without end if that has none, exactly one of them is applicable, and on all other days none is. -/
theorem one_of_successive_rules_applies (hreachable : catalog.Reachable) {country : String}
    {type : RuleType} {first : CompiledRule} {others : List CompiledRule}
    (hstored : ∀ one ∈ first :: others, one ∈ catalog.compiledRules ∧
      sameIgnoringCase one.rule.country country = true ∧ one.rule.type = type)
    (hchain : (first :: others).IsChain fun a b => a.rule.FollowedBy b.rule) (date : Date) :
    let last := (first :: others).getLast (List.cons_ne_nil first others)
    let selected := (catalog.applicable ⟨country, some type, date⟩).filter fun one =>
      ((first :: others).map CompiledRule.id).contains one.id
    (first.rule.Spans last.rule date → ∃ one ∈ first :: others, selected = [one]) ∧
      (¬ first.rule.Spans last.rule date → selected = []) := by
  intro last selected
  have hsound := hreachable.sound
  have hwellFormed : ∀ one ∈ first :: others, one.rule.WellFormed :=
    fun one hone => (hsound.faithful one (hstored one hone).1).wellFormed
  have hmem : ∀ compiled, compiled ∈ selected ↔ compiled ∈ (first :: others).filter fun one =>
      one.rule.isEffectiveOn date := by
    intro compiled
    refine hsound.mem_filter_applicable fun one hone => ?_
    obtain ⟨hcompiled, hcountry, htype⟩ := hstored one hone
    exact ⟨hcompiled, hcountry, congrArg some htype.symm⟩
  obtain ⟨hone, hnone⟩ := filter_isEffectiveOn hwellFormed hchain date
  constructor
  · intro hspans
    obtain ⟨one, hinForce⟩ := hone hspans
    rw [hinForce] at hmem
    have hnodup : selected.Nodup := (hsound.nodup_applicable.of_map _).filter _
    have hperm : selected.Perm [one] :=
      (List.perm_ext_iff_of_nodup hnodup (List.nodup_singleton one)).mpr hmem
    have hchosen : one ∈ (first :: others).filter fun one => one.rule.isEffectiveOn date := by
      rw [hinForce]
      exact List.mem_singleton_self one
    exact ⟨one, (List.mem_filter.mp hchosen).1, List.perm_singleton.mp hperm⟩
  · intro hspans
    rw [hnone hspans] at hmem
    exact List.eq_nil_iff_forall_not_mem.mpr fun one hselected => by
      cases (hmem one).mp hselected

/-- A fee that is in force for a time. -/
def feeFor (id : String) (since : Date) (till : Option Date) : Rule :=
  { plainRule id "DE" "1" none with effectiveFrom := since, effectiveTo := till }

/-- Three fees, which follow one another at the end of a year and after a leap day. -/
def successiveFees : Catalog :=
  empty.afterAll
    [.load (feeFor "old" ⟨2023, 7, 1, by decide⟩ (some ⟨2023, 12, 31, by decide⟩)),
      .load (feeFor "winter" ⟨2024, 1, 1, by decide⟩ (some ⟨2024, 2, 29, by decide⟩)),
      .load (feeFor "new" ⟨2024, 3, 1, by decide⟩ none)]

/-- One of the fees is applicable on the leap day, and none on the day before the first begins. -/
theorem one_of_successive_rules_applies_leap_day :
    let selected := fun (date : Date) =>
      (successiveFees.applicable ⟨"de", some .baseFee, date⟩).filter fun one =>
        (successiveFees.compiledRules.map CompiledRule.id).contains one.id
    successiveFees.Reachable ∧
    (∀ one ∈ successiveFees.compiledRules,
      sameIgnoringCase one.rule.country "de" = true ∧ one.rule.type = .baseFee) ∧
    successiveFees.compiledRules.IsChain (fun a b => a.rule.FollowedBy b.rule) ∧
    (∃ one ∈ successiveFees.compiledRules, selected ⟨2024, 2, 29, by decide⟩ = [one]) ∧
    selected ⟨2023, 6, 30, by decide⟩ = [] := by
  intro selected
  have hreachable : successiveFees.Reachable := ⟨_, rfl⟩
  have hsame : ∀ one ∈ successiveFees.compiledRules,
      sameIgnoringCase one.rule.country "de" = true ∧ one.rule.type = .baseFee := by
    have hcase : sameIgnoringCase "DE" "de" = true := sameIgnoringCase_iff.mpr (by decide)
    have hrules : ∀ one ∈ successiveFees.compiledRules,
        one.rule.country = "DE" ∧ one.rule.type = .baseFee := by
      decide +kernel
    intro one hone
    obtain ⟨hcountry, htype⟩ := hrules one hone
    exact ⟨hcountry ▸ hcase, htype⟩
  have hchain : successiveFees.compiledRules.IsChain fun a b => a.rule.FollowedBy b.rule := by
    decide +kernel
  have hfirst : ∀ one ∈ successiveFees.compiledRules.head?,
      one.rule.effectiveFrom = ⟨2023, 7, 1, by decide⟩ := by
    decide +kernel
  have hlast : ∀ one ∈ successiveFees.compiledRules.getLast?, one.rule.effectiveTo = none := by
    decide +kernel
  refine ⟨hreachable, hsame, hchain, ?_⟩
  have hnonempty : successiveFees.compiledRules ≠ [] :=
    List.ne_nil_of_length_pos (by decide +kernel)
  obtain ⟨first, others, hrules⟩ := List.exists_cons_of_ne_nil hnonempty
  simp only [selected]
  rw [hrules] at hsame hchain hfirst hlast ⊢
  have happlies := one_of_successive_rules_applies hreachable
    (fun one hone => ⟨hrules ▸ hone, hsame one hone⟩) hchain
  have hbegin := hfirst first rfl
  have hopen := hlast _ (List.getLast?_eq_some_getLast (List.cons_ne_nil first others))
  refine ⟨(happlies _).1 ⟨?_, ?_⟩, (happlies _).2 ?_⟩
  · rw [hbegin]
    decide
  · rw [hopen]
    simp
  · rintro ⟨hbegun, -⟩
    rw [hbegin] at hbegun
    exact absurd hbegun (by decide)

end Catalog

end Tariff
