/-
# The order in which rules apply

Selection keeps the rules that a query accepts and puts them in the order of their priorities,
and of their ids where priorities are equal.

* `precedes_iff` : when a rule may stand before another one;
* `selectRules_perm`, `mem_selectRules` : which rules are selected;
* `pairwise_precedes_selectRules`, `filter_selectRules` : they are in order, and rules that agree in
  priority and id stay in the order in which they were listed;
* `pairwise_selectRules` : selected rules of distinct ids are in strictly rising order;
* `selectRules_of_perm` : which does not depend on how they were listed.
-/
import Tariff.Proofs.Text.Bytes
import Tariff.Rule.Selection

namespace Tariff

namespace Rule

/-- A rule comes before another one: its priority is lower, or the priorities are equal and its
id is smaller. -/
def ComesBefore (a b : Rule) : Prop := a.priority < b.priority ∨ a.priority = b.priority ∧ a.id < b.id

/-- The order of ids is that of their bytes. -/
theorem comesBefore_iff {a b : Rule} :
    a.ComesBefore b ↔
      a.priority < b.priority ∨ a.priority = b.priority ∧ utf8Bytes a.id < utf8Bytes b.id := by
  rw [ComesBefore, lt_iff_utf8Bytes_lt]

theorem ComesBefore.asymm {a b : Rule} (hab : a.ComesBefore b) : ¬ b.ComesBefore a := by
  rintro (hlt | ⟨heq, hid⟩)
  · rcases hab with hab | ⟨hab, -⟩
    · exact Int32.lt_asymm hab hlt
    · exact Int32.lt_irrefl (hab ▸ hlt)
  · rcases hab with hab | ⟨-, hidab⟩
    · exact Int32.lt_irrefl (heq ▸ hab)
    · exact String.lt_asymm hidab hid

theorem precedes_iff {a b : Rule} :
    a.precedes b = true ↔ a.priority < b.priority ∨ a.priority = b.priority ∧ a.id ≤ b.id := by
  rw [precedes, Bool.or_eq_true, Bool.and_eq_true, decide_eq_true_eq, decide_eq_true_eq, beq_iff_eq]

/-- The order of ids is that of their bytes. -/
theorem precedes_iff_bytes {a b : Rule} :
    a.precedes b = true ↔
      a.priority < b.priority ∨ a.priority = b.priority ∧ utf8Bytes a.id ≤ utf8Bytes b.id := by
  have hid : a.id ≤ b.id ↔ utf8Bytes a.id ≤ utf8Bytes b.id := by
    rw [← String.not_lt, ← List.not_lt, lt_iff_utf8Bytes_lt]
  rw [precedes_iff, hid]

theorem precedes_trans {a b c : Rule} (hab : a.precedes b = true) (hbc : b.precedes c = true) :
    a.precedes c = true := by
  rw [precedes_iff] at hab hbc ⊢
  rcases hab with hab | ⟨hab, hidab⟩
  · rcases hbc with hbc | ⟨hbc, -⟩
    · exact Or.inl (Int32.lt_trans hab hbc)
    · exact Or.inl (hbc ▸ hab)
  · rcases hbc with hbc | ⟨hbc, hidbc⟩
    · exact Or.inl (hab ▸ hbc)
    · exact Or.inr ⟨hab.trans hbc, String.le_trans hidab hidbc⟩

theorem precedes_total (a b : Rule) : (a.precedes b || b.precedes a) = true := by
  rw [Bool.or_eq_true, precedes_iff, precedes_iff]
  rcases Int.lt_trichotomy a.priority.toInt b.priority.toInt with hlt | heq | hgt
  · exact Or.inl (Or.inl (Int32.lt_iff_toInt_lt.mpr hlt))
  · have hpriority : a.priority = b.priority := Int32.toInt_inj.mp heq
    rcases String.le_total a.id b.id with hid | hid
    · exact Or.inl (Or.inr ⟨hpriority, hid⟩)
    · exact Or.inr (Or.inr ⟨hpriority.symm, hid⟩)
  · exact Or.inr (Or.inl (Int32.lt_iff_toInt_lt.mpr hgt))

/-- Rules of different ids are in strict order. -/
theorem comesBefore_of_precedes {a b : Rule} (h : a.precedes b = true) (hne : a.id ≠ b.id) :
    a.ComesBefore b := by
  rcases precedes_iff.mp h with hlt | ⟨heq, hid⟩
  · exact Or.inl hlt
  · by_cases hlt : a.id < b.id
    · exact Or.inr ⟨heq, hlt⟩
    · exact absurd (String.le_antisymm hid (String.not_lt.mp hlt)) hne

end Rule

/-! ## Selection -/

/-- Which rules a query accepts: those of its country and of its category, if it has one, that are
in force on its day, the first and the last day included. -/
theorem accepts_iff {query : RuleQuery} {rule : Rule} :
    query.accepts rule = true ↔
      sameIgnoringCase rule.country query.country = true ∧ rule.effectiveFrom ≤ query.date ∧
      (∀ last, rule.effectiveTo = some last → query.date ≤ last) ∧
      ∀ type, query.type = some type → rule.type = type := by
  rw [RuleQuery.accepts, Rule.isEffectiveOn]
  cases rule.effectiveTo with
  | none => cases query.type <;> simp [and_assoc]
  | some last => cases query.type <;> simp [and_assoc]

variable {α : Type} {ruleOf : α → Rule} {query : RuleQuery} {carriers : List α}

/-- What is selected are the rules that the query accepts, in some order. -/
theorem selectRules_perm :
    (selectRules ruleOf query carriers).Perm
      (carriers.filter fun carrier => query.accepts (ruleOf carrier)) :=
  List.mergeSort_perm _ _

theorem mem_selectRules {carrier : α} :
    carrier ∈ selectRules ruleOf query carriers ↔
      carrier ∈ carriers ∧ query.accepts (ruleOf carrier) = true := by
  rw [selectRules_perm.mem_iff, List.mem_filter]

/-- Rules that are listed in order are selected in the order in which they are listed. -/
theorem selectRules_of_pairwise
    (h : (carriers.filter fun carrier => query.accepts (ruleOf carrier)).Pairwise
      fun a b => (ruleOf a).precedes (ruleOf b) = true) :
    selectRules ruleOf query carriers =
      carriers.filter fun carrier => query.accepts (ruleOf carrier) :=
  List.mergeSort_of_pairwise h

/-- Selection keeps ids distinct. -/
theorem nodup_selectRules (h : (carriers.map fun carrier => (ruleOf carrier).id).Nodup) :
    ((selectRules ruleOf query carriers).map fun carrier => (ruleOf carrier).id).Nodup :=
  (selectRules_perm.map _).nodup_iff.mpr (h.sublist (List.filter_sublist.map _))

/-- What is selected is in order. -/
theorem pairwise_precedes_selectRules :
    (selectRules ruleOf query carriers).Pairwise fun a b =>
      (ruleOf a).precedes (ruleOf b) = true := by
  apply List.pairwise_mergeSort
  · intro a b c
    exact Rule.precedes_trans
  · intro a b
    exact Rule.precedes_total (ruleOf a) (ruleOf b)

/-- **The order of rules.** Of rules whose ids are distinct, those that are selected are in strictly
rising order of their priorities and ids. -/
theorem pairwise_selectRules (h : (carriers.map fun carrier => (ruleOf carrier).id).Nodup) :
    (selectRules ruleOf query carriers).Pairwise fun a b => (ruleOf a).ComesBefore (ruleOf b) := by
  have hdistinct : (selectRules ruleOf query carriers).Pairwise fun a b =>
      (ruleOf a).id ≠ (ruleOf b).id := List.pairwise_map.mp (nodup_selectRules h)
  refine (pairwise_precedes_selectRules.and hdistinct).imp ?_
  rintro a b ⟨hprecedes, hne⟩
  exact Rule.comesBefore_of_precedes hprecedes hne

/-- In strictly rising order, rules can stand in one way only. -/
theorem eq_of_perm_of_pairwise {others : List α} (hperm : others.Perm carriers)
    (hothers : others.Pairwise fun a b => (ruleOf a).ComesBefore (ruleOf b))
    (hcarriers : carriers.Pairwise fun a b => (ruleOf a).ComesBefore (ruleOf b)) :
    others = carriers := by
  refine List.Perm.eq_of_pairwise ?_ hothers hcarriers hperm
  intro a b ha hb hab hba
  exact absurd hba hab.asymm

/-- What is selected does not depend on how the rules are listed. -/
theorem selectRules_of_perm {others : List α} (hperm : others.Perm carriers)
    (h : (carriers.map fun carrier => (ruleOf carrier).id).Nodup) :
    selectRules ruleOf query others = selectRules ruleOf query carriers := by
  have hothers : (others.map fun carrier => (ruleOf carrier).id).Nodup :=
    (hperm.map _).nodup_iff.mpr h
  refine eq_of_perm_of_pairwise ?_ (pairwise_selectRules hothers) (pairwise_selectRules h)
  exact selectRules_perm.trans ((hperm.filter _).trans selectRules_perm.symm)

/-- Of rules whose ids are distinct, some may be left out before or after the selection. -/
theorem selectRules_filter (h : (carriers.map fun carrier => (ruleOf carrier).id).Nodup)
    (p : α → Bool) :
    selectRules ruleOf query (carriers.filter p) =
      (selectRules ruleOf query carriers).filter p := by
  have hkept : ((carriers.filter p).map fun carrier => (ruleOf carrier).id).Nodup :=
    h.sublist (List.filter_sublist.map _)
  have hordered : ((selectRules ruleOf query carriers).filter p).Pairwise fun a b =>
      (ruleOf a).ComesBefore (ruleOf b) := (pairwise_selectRules h).sublist List.filter_sublist
  refine eq_of_perm_of_pairwise ?_ (pairwise_selectRules hkept) hordered
  have hcomm : (carriers.filter p).filter (fun carrier => query.accepts (ruleOf carrier)) =
      (carriers.filter fun carrier => query.accepts (ruleOf carrier)).filter p := by
    simp only [List.filter_filter, Bool.and_comm]
  have hperm : (selectRules ruleOf query (carriers.filter p)).Perm _ := selectRules_perm
  rw [hcomm] at hperm
  exact hperm.trans (selectRules_perm.filter p).symm

/-- Rules that agree in priority and id stay in the order in which they are listed. -/
theorem filter_selectRules (priority : Int32) (id : String) :
    (selectRules ruleOf query carriers).filter (fun carrier =>
        (ruleOf carrier).priority == priority && (ruleOf carrier).id == id) =
      (carriers.filter fun carrier => query.accepts (ruleOf carrier)).filter fun carrier =>
        (ruleOf carrier).priority == priority && (ruleOf carrier).id == id := by
  let ties := fun carrier => (ruleOf carrier).priority == priority && (ruleOf carrier).id == id
  let accepted := carriers.filter fun carrier => query.accepts (ruleOf carrier)
  show (selectRules ruleOf query carriers).filter ties = accepted.filter ties
  have hordered : (accepted.filter ties).Pairwise fun a b =>
      (ruleOf a).precedes (ruleOf b) = true := by
    apply List.pairwise_of_forall_mem_list
    intro a ha b hb
    have hatie := (List.mem_filter.mp ha).2
    have hbtie := (List.mem_filter.mp hb).2
    simp only [ties, Bool.and_eq_true, beq_iff_eq] at hatie hbtie
    rw [Rule.precedes_iff, hatie.1, hatie.2, hbtie.1, hbtie.2]
    exact Or.inr ⟨rfl, String.le_refl id⟩
  -- A sublist that is in order is left in its order by a stable sort.
  have hkept : (accepted.filter ties).Sublist (selectRules ruleOf query carriers) := by
    refine List.sublist_mergeSort ?_ ?_ hordered List.filter_sublist
    · intro a b c
      exact Rule.precedes_trans
    · intro a b
      exact Rule.precedes_total (ruleOf a) (ruleOf b)
  have hsublist := hkept.filter ties
  simp only [List.filter_filter, Bool.and_self] at hsublist
  refine (hsublist.eq_of_length ?_).symm
  exact ((selectRules_perm.filter ties).length_eq).symm

end Tariff
