/-
# Tables

A table holds one value for each of finitely many names. Its entries are kept in the order in
which their names were last given a value; nothing that is answered from a table depends on
that order.
-/

namespace Tariff

/-- Entries whose names are pairwise distinct. -/
structure Table (α : Type) where
  entries : List (String × α)
  nodup : (entries.map Prod.fst).Nodup

namespace Table

variable {α : Type}

/-- The table without entries. -/
def empty : Table α := ⟨[], List.nodup_nil⟩

instance : Inhabited (Table α) := ⟨empty⟩

/-- The names of a table. -/
def names (t : Table α) : List String := t.entries.map Prod.fst

/-- The number of entries. -/
def size (t : Table α) : Nat := t.entries.length

/-- Whether a table has no entries. -/
def isEmpty (t : Table α) : Bool := t.entries.isEmpty

/-- The value of a name. -/
def get? (t : Table α) (name : String) : Option α := t.entries.lookup name

/-- Whether a name has a value. -/
def contains (t : Table α) (name : String) : Bool := (t.get? name).isSome

/-- Removes a name. -/
def erase (t : Table α) (name : String) : Table α where
  entries := t.entries.filter fun entry => entry.1 != name
  nodup := t.nodup.sublist (List.filter_sublist.map _)

/-- Gives a name a value, in place of the one that it may have. -/
def insert (t : Table α) (name : String) (value : α) : Table α where
  entries := (t.erase name).entries ++ [(name, value)]
  nodup := by
    rw [List.map_append, List.nodup_append]
    refine ⟨(t.erase name).nodup, by simp, ?_⟩
    simp [erase]

/-- Gives names values one after the other, so that the last value of a name counts. -/
def insertAll (t : Table α) (entries : List (String × α)) : Table α :=
  entries.foldl (fun t entry => t.insert entry.1 entry.2) t

/-- The table of a list, in which the last value of a name counts. -/
def ofList (entries : List (String × α)) : Table α := empty.insertAll entries

/-! ## Look-up -/

/-- Taking a name out leaves all other names as they are. -/
theorem lookup_filter_ne (entries : List (String × α)) {name other : String}
    (h : other ≠ name) :
    (entries.filter fun entry => entry.1 != name).lookup other = entries.lookup other := by
  induction entries with
  | nil => rfl
  | cons entry entries ih =>
    obtain ⟨key, value⟩ := entry
    by_cases hkey : key = name
    · subst hkey
      have : (other == key) = false := by simpa using h
      simp [List.lookup_cons, ih, this]
    · simp [hkey, List.lookup_cons, ih]

/-- A name that has been taken out is not found. -/
theorem lookup_filter_self (entries : List (String × α)) (name : String) :
    (entries.filter fun entry => entry.1 != name).lookup name = none := by
  induction entries with
  | nil => rfl
  | cons entry entries ih =>
    obtain ⟨key, value⟩ := entry
    by_cases hkey : key = name
    · simp [hkey, ih]
    · have : (name == key) = false := by simpa using Ne.symm hkey
      simp [hkey, List.lookup_cons, ih, this]

@[simp] theorem get?_empty (name : String) : (empty : Table α).get? name = none := rfl

@[simp] theorem get?_erase_self (t : Table α) (name : String) :
    (t.erase name).get? name = none :=
  lookup_filter_self t.entries name

theorem get?_erase_of_ne (t : Table α) {name other : String} (h : other ≠ name) :
    (t.erase name).get? other = t.get? other :=
  lookup_filter_ne t.entries h

@[simp] theorem get?_insert_self (t : Table α) (name : String) (value : α) :
    (t.insert name value).get? name = some value := by
  have hself : (t.erase name).entries.lookup name = none := get?_erase_self t name
  simp [get?, insert, List.lookup_append, hself]

theorem get?_insert_of_ne (t : Table α) {name other : String} (value : α) (h : other ≠ name) :
    (t.insert name value).get? other = t.get? other := by
  have hne : (other == name) = false := by simpa using h
  have hrest : (t.erase name).entries.lookup other = t.entries.lookup other :=
    get?_erase_of_ne t h
  simp [get?, insert, List.lookup_append, hrest, List.lookup_cons, hne]

/-- A name that is given a value and removed leaves the entries of the others. -/
theorem entries_erase_insert (t : Table α) (name : String) (value : α) :
    ((t.insert name value).erase name).entries = (t.erase name).entries := by
  show ((t.erase name).entries ++ [(name, value)]).filter _ = _
  simp [erase]

theorem entries_erase_erase (t : Table α) (name : String) :
    ((t.erase name).erase name).entries = (t.erase name).entries := by
  simp [erase]

/-- The value of a name is the one of its only entry. -/
theorem get?_eq_some_iff (t : Table α) {name : String} {value : α} :
    t.get? name = some value ↔ (name, value) ∈ t.entries := by
  rw [get?, List.lookup_eq_some_iff]
  constructor
  · rintro ⟨before, after, hentries, -⟩
    rw [hentries]
    exact List.mem_append_right before List.mem_cons_self
  · intro h
    obtain ⟨before, after, hentries⟩ := List.append_of_mem h
    refine ⟨before, after, hentries, ?_⟩
    intro entry hentry
    have hnodup := t.nodup
    rw [hentries, List.map_append, List.nodup_append] at hnodup
    have hne := hnodup.2.2 entry.1 (List.mem_map_of_mem hentry) name (by simp)
    simpa using Ne.symm hne

/-! ## Tables of lists -/

/-- Entries of new names are added at the end. -/
theorem entries_insertAll (t : Table α) {entries : List (String × α)}
    (h : ((t.entries ++ entries).map Prod.fst).Nodup) :
    (t.insertAll entries).entries = t.entries ++ entries := by
  induction entries generalizing t with
  | nil => rw [List.append_nil, insertAll, List.foldl_nil]
  | cons entry entries ih =>
    have hsame : (t.erase entry.1).entries = t.entries := by
      apply List.filter_eq_self.mpr
      intro other hother
      rw [List.map_append, List.nodup_append] at h
      have hne := h.2.2 other.1 (List.mem_map_of_mem hother) entry.1 (by simp)
      simpa using hne
    have hinsert : (t.insert entry.1 entry.2).entries = t.entries ++ [entry] := by
      show (t.erase entry.1).entries ++ [(entry.1, entry.2)] = _
      rw [hsame]
    rw [insertAll, List.foldl_cons, ← insertAll, ih, hinsert]
    · simp
    · rw [hinsert]
      simpa using h

/-- The entries of a table of a list without repeated names are those of the list. -/
theorem entries_ofList {entries : List (String × α)} (h : (entries.map Prod.fst).Nodup) :
    (ofList entries).entries = entries := by
  rw [ofList, entries_insertAll]
  · rfl
  · exact h

/-- A table is the table of its entries. -/
theorem ofList_entries (t : Table α) : ofList t.entries = t := by
  have hentries := entries_ofList t.nodup
  generalize ofList t.entries = other at hentries
  obtain ⟨entries, nodup⟩ := other
  cases hentries
  rfl

/-- Entries of other names leave the value of a name. -/
theorem get?_insertAll_of_ne (t : Table α) {entries : List (String × α)} {name : String}
    (h : ∀ entry ∈ entries, entry.1 ≠ name) : (t.insertAll entries).get? name = t.get? name := by
  induction entries generalizing t with
  | nil => rfl
  | cons entry entries ih =>
    obtain ⟨hentry, hothers⟩ := List.forall_mem_cons.mp h
    rw [insertAll, List.foldl_cons, ← insertAll, ih _ hothers,
      get?_insert_of_ne t entry.2 (Ne.symm hentry)]

/-- The last value of a name counts. -/
theorem get?_ofList_last {before after : List (String × α)} {name : String} {value : α}
    (h : ∀ entry ∈ after, entry.1 ≠ name) :
    (ofList (before ++ (name, value) :: after)).get? name = some value := by
  rw [ofList, insertAll, List.foldl_append, List.foldl_cons, ← insertAll,
    get?_insertAll_of_ne _ h, get?_insert_self]

/-- Entries that are added give a name the value of one of them, or leave it. -/
theorem get?_insertAll_cases (t : Table α) (entries : List (String × α)) (name : String) :
    (t.insertAll entries).get? name = t.get? name ∨
      ∃ value, (name, value) ∈ entries ∧ (t.insertAll entries).get? name = some value := by
  induction entries generalizing t with
  | nil => exact Or.inl rfl
  | cons entry entries ih =>
    rw [insertAll, List.foldl_cons, ← insertAll]
    rcases ih (t.insert entry.1 entry.2) with hsame | ⟨value, hmem, hvalue⟩
    · by_cases hname : name = entry.1
      · subst hname
        rw [get?_insert_self] at hsame
        exact Or.inr ⟨entry.2, List.mem_cons_self, hsame⟩
      · rw [get?_insert_of_ne t entry.2 hname] at hsame
        exact Or.inl hsame
    · exact Or.inr ⟨value, List.mem_cons_of_mem _ hmem, hvalue⟩

end Table

end Tariff
