/-
# Outcomes

What it takes for a computation that can fail to succeed, and for it to fail, part by part and,
for runs over lists, element by element.
-/
import Mathlib.Data.List.Forall2

namespace Tariff

variable {ε ε' α β : Type}

/-- Two steps succeed when the first does and the second does with its result. -/
theorem bind_eq_ok_iff {first : Except ε α} {next : α → Except ε β} {result : β} :
    (first >>= next) = .ok result ↔ ∃ value, first = .ok value ∧ next value = .ok result := by
  cases first <;> simp [bind, Except.bind]

/-- Two steps fail when the first does, or the second after it. -/
theorem bind_eq_error_iff {first : Except ε α} {next : α → Except ε β} {error : ε} :
    (first >>= next) = .error error ↔
      first = .error error ∨ ∃ value, first = .ok value ∧ next value = .error error := by
  cases first <;> simp [bind, Except.bind]

theorem map_eq_ok_iff {outcome : Except ε α} {f : α → β} {result : β} :
    outcome.map f = .ok result ↔ ∃ value, outcome = .ok value ∧ f value = result := by
  cases outcome <;> simp [Except.map]

theorem map_eq_error_iff {outcome : Except ε α} {f : α → β} {error : ε} :
    outcome.map f = .error error ↔ outcome = .error error := by
  cases outcome <;> simp [Except.map]

theorem mapError_eq_ok_iff {outcome : Except ε α} {f : ε → ε'} {result : α} :
    outcome.mapError f = .ok result ↔ outcome = .ok result := by
  constructor
  · intro h
    cases outcome with
    | ok value =>
      cases h
      rfl
    | error cause => cases h
  · rintro rfl
    rfl

theorem mapError_eq_error_iff {outcome : Except ε α} {f : ε → ε'} {error : ε'} :
    outcome.mapError f = .error error ↔ ∃ cause, outcome = .error cause ∧ f cause = error := by
  constructor
  · intro h
    cases outcome with
    | ok value => cases h
    | error cause =>
      cases h
      exact ⟨cause, rfl, rfl⟩
  · rintro ⟨cause, rfl, rfl⟩
    rfl

theorem toOption_eq_some_iff {outcome : Except ε α} {result : α} :
    outcome.toOption = some result ↔ outcome = .ok result := by
  cases outcome <;> simp [Except.toOption]

/-- A success, of which something is known. -/
theorem exists_of_toOption_map {outcome : Except ε α} {f : α → β} {result : β}
    (h : outcome.toOption.map f = some result) :
    ∃ value, outcome = .ok value ∧ f value = result := by
  obtain ⟨value, hvalue, hresult⟩ := Option.map_eq_some_iff.mp h
  exact ⟨value, toOption_eq_some_iff.mp hvalue, hresult⟩

theorem exists_ok_iff_isOk {outcome : Except ε α} :
    (∃ value, outcome = .ok value) ↔ outcome.isOk = true := by
  cases outcome <;> simp [Except.isOk, Except.toBool]

theorem exists_error_iff_isOk {outcome : Except ε α} :
    (∃ error, outcome = .error error) ↔ outcome.isOk = false := by
  cases outcome <;> simp [Except.isOk, Except.toBool]

/-- What never succeeds fails. -/
theorem exists_error_of_forall_ne {outcome : Except ε α} (h : ∀ value, outcome ≠ .ok value) :
    ∃ error, outcome = .error error := by
  cases outcome with
  | ok value => exact absurd rfl (h value)
  | error error => exact ⟨error, rfl⟩

/-! ## Runs over lists -/

/-- A run over a list ends well when it does so up to the last element, which then does too. -/
theorem foldlM_append_singleton {m : Type u → Type v} [Monad m] [LawfulMonad m] {σ : Type u}
    {γ : Type w} (f : σ → γ → m σ) (state : σ) (before : List γ) (x : γ) :
    (before ++ [x]).foldlM f state = before.foldlM f state >>= fun next => f next x := by
  rw [List.foldlM_append]
  congr 1
  funext next
  rw [List.foldlM_cons]
  exact bind_pure (f next x)

/-- A run over a list fails at one of its elements, all before which succeed. -/
theorem foldlM_eq_error_iff {f : β → α → Except ε β} {state : β} {l : List α} {error : ε} :
    l.foldlM f state = .error error ↔
      ∃ before x after, l = before ++ x :: after ∧
        ∃ next, before.foldlM f state = .ok next ∧ f next x = .error error := by
  induction l generalizing state with
  | nil =>
    constructor
    · intro h
      cases h
    · rintro ⟨before, x, after, h, -⟩
      simp at h
  | cons first l ih =>
    rw [List.foldlM_cons, bind_eq_error_iff]
    constructor
    · rintro (hfirst | ⟨next, hnext, hrest⟩)
      · exact ⟨[], first, l, rfl, state, rfl, hfirst⟩
      · obtain ⟨before, x, after, rfl, last, hlast, herror⟩ := ih.mp hrest
        refine ⟨first :: before, x, after, rfl, last, ?_, herror⟩
        rw [List.foldlM_cons, hnext]
        exact hlast
    · rintro ⟨before, x, after, hsplit, last, hlast, herror⟩
      rcases before with _ | ⟨head, before⟩
      · cases hsplit
        cases hlast
        exact Or.inl herror
      · cases hsplit
        rw [List.foldlM_cons, bind_eq_ok_iff] at hlast
        obtain ⟨next, hnext, hlast⟩ := hlast
        exact Or.inr ⟨next, hnext, ih.mpr ⟨before, x, after, rfl, last, hlast, herror⟩⟩

/-- An element of a list has a counterpart in a list that matches it. -/
theorem exists_mem_of_forall₂ {R : α → β → Prop} {l : List α} {results : List β}
    (h : List.Forall₂ R l results) {x : α} (hx : x ∈ l) : ∃ result ∈ results, R x result := by
  induction h with
  | nil => cases hx
  | cons hfirst hothers ih =>
    rcases List.mem_cons.mp hx with rfl | hx
    · exact ⟨_, List.mem_cons_self, hfirst⟩
    · obtain ⟨result, hresult, hrel⟩ := ih hx
      exact ⟨result, List.mem_cons_of_mem _ hresult, hrel⟩

/-- Each element of a list has its result, or there is none for the list. -/
theorem mapM_eq_ok_iff {f : α → Except ε β} {l : List α} {results : List β} :
    l.mapM f = .ok results ↔ List.Forall₂ (fun x result => f x = .ok result) l results := by
  induction l generalizing results with
  | nil =>
    rw [List.mapM_nil, List.forall₂_nil_left_iff]
    constructor
    · intro h
      cases h
      rfl
    · rintro rfl
      rfl
  | cons x l ih =>
    rw [List.mapM_cons, bind_eq_ok_iff, List.forall₂_cons_left_iff]
    constructor
    · rintro ⟨first, hfirst, h⟩
      obtain ⟨others, hothers, h⟩ := bind_eq_ok_iff.mp h
      cases h
      exact ⟨first, others, hfirst, ih.mp hothers, rfl⟩
    · rintro ⟨first, others, hfirst, hothers, rfl⟩
      exact ⟨first, hfirst, bind_eq_ok_iff.mpr ⟨others, ih.mpr hothers, rfl⟩⟩

/-- A list has no results for its first element that has none. -/
theorem mapM_eq_error_iff {f : α → Except ε β} {l : List α} {error : ε} :
    l.mapM f = .error error ↔
      ∃ before x after, l = before ++ x :: after ∧
        (∀ y ∈ before, ∃ result, f y = .ok result) ∧ f x = .error error := by
  induction l with
  | nil =>
    constructor
    · intro h
      cases h
    · rintro ⟨before, x, after, h, -⟩
      simp at h
  | cons first l ih =>
    rw [List.mapM_cons, bind_eq_error_iff]
    constructor
    · rintro (hfirst | ⟨result, hresult, h⟩)
      · exact ⟨[], first, l, rfl, by simp, hfirst⟩
      · rcases bind_eq_error_iff.mp h with hrest | ⟨others, -, h⟩
        · obtain ⟨before, x, after, rfl, hbefore, herror⟩ := ih.mp hrest
          exact ⟨first :: before, x, after, rfl,
            List.forall_mem_cons.mpr ⟨⟨result, hresult⟩, hbefore⟩, herror⟩
        · cases h
    · rintro ⟨before, x, after, hsplit, hbefore, herror⟩
      rcases before with _ | ⟨head, before⟩
      · cases hsplit
        exact Or.inl herror
      · cases hsplit
        obtain ⟨⟨result, hresult⟩, hbefore⟩ := List.forall_mem_cons.mp hbefore
        refine Or.inr ⟨result, hresult, bind_eq_error_iff.mpr (Or.inl ?_)⟩
        exact ih.mpr ⟨before, x, after, rfl, hbefore, herror⟩

end Tariff
