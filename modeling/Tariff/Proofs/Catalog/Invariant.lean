/-
# What holds of every catalog

In every catalog that arises from the empty one, by whatever changes and whether or not they
succeed, each entry stands under the id of its rule and is faithful to it, the versions of the
entries are different ones, and the catalog's version counts the compilations that succeeded.

* `Sound.foldl_put` : rules of new versions may be put in a sound catalog;
* `Sound.of_effect` : a change leaves a sound catalog sound;
* `afterAll_empty_sound` : the catalogs that arise from the empty one are sound, and rules that
  are loaded again get higher versions.
-/
import Tariff.Proofs.Catalog.Effect

namespace Tariff

namespace Catalog

/-! ## Entries after a change -/

theorem version_foldl_put (stored : List CompiledRule) (catalog : Catalog) :
    (stored.foldl put catalog).version = catalog.version := by
  induction stored generalizing catalog with
  | nil => rfl
  | cons compiled stored ih =>
    rw [List.foldl_cons, ih]
    rfl

/-- Putting rules leaves the entries of other ids. -/
theorem get?_foldl_put_of_not_mem {stored : List CompiledRule} {id : String}
    (h : id ∉ stored.map CompiledRule.id) (catalog : Catalog) :
    (stored.foldl put catalog).get? id = catalog.get? id := by
  induction stored generalizing catalog with
  | nil => rfl
  | cons compiled stored ih =>
    rw [List.map_cons, List.mem_cons, not_or] at h
    rw [List.foldl_cons, ih h.2]
    exact Table.get?_insert_of_ne catalog.rules compiled h.1

/-- Of rules that are put, the last one of an id stands under the id. -/
theorem get?_foldl_put_of_mem {stored : List CompiledRule} {id : String}
    (h : id ∈ stored.map CompiledRule.id) (catalog : Catalog) :
    ∃ compiled ∈ stored, (stored.foldl put catalog).get? id = some compiled := by
  induction stored generalizing catalog with
  | nil => cases h
  | cons compiled stored ih =>
    rw [List.foldl_cons]
    by_cases hlater : id ∈ stored.map CompiledRule.id
    · obtain ⟨last, hlast, hget⟩ := ih hlater (catalog.put compiled)
      exact ⟨last, List.mem_cons_of_mem compiled hlast, hget⟩
    · -- No later rule has the id, so that the first one stays.
      obtain rfl : id = compiled.id := by
        rw [List.map_cons] at h
        exact (List.mem_cons.mp h).resolve_right hlater
      refine ⟨compiled, List.mem_cons_self, ?_⟩
      rw [get?_foldl_put_of_not_mem hlater]
      exact Table.get?_insert_self catalog.rules compiled.id compiled

/-! ## Soundness -/

/-- What holds of the catalogs that arise from the empty one. -/
structure Sound (catalog : Catalog) : Prop where
  ids : ∀ entry ∈ catalog.rules.entries, entry.1 = entry.2.id
  faithful : ∀ compiled ∈ catalog.compiledRules, compiled.Faithful
  positive : ∀ compiled ∈ catalog.compiledRules, 1 ≤ compiled.version
  bounded : ∀ compiled ∈ catalog.compiledRules, compiled.version ≤ catalog.version
  distinct : (catalog.compiledRules.map CompiledRule.version).Nodup

theorem sound_empty : Sound empty where
  ids := by
    intro entry hentry
    cases hentry
  faithful := by
    intro compiled hcompiled
    cases hcompiled
  positive := by
    intro compiled hcompiled
    cases hcompiled
  bounded := by
    intro compiled hcompiled
    cases hcompiled
  distinct := List.nodup_nil

/-- Entries may be removed from a sound catalog, and its version may be raised. -/
theorem Sound.of_sublist {catalog next : Catalog} (h : catalog.Sound)
    (hentries : next.rules.entries.Sublist catalog.rules.entries)
    (hversion : catalog.version ≤ next.version) : next.Sound := by
  have hrules : next.compiledRules.Sublist catalog.compiledRules := hentries.map Prod.snd
  refine ⟨fun entry hentry => h.ids entry (hentries.subset hentry),
    fun compiled hcompiled => h.faithful compiled (hrules.subset hcompiled),
    fun compiled hcompiled => h.positive compiled (hrules.subset hcompiled), ?_,
    h.distinct.sublist (hrules.map CompiledRule.version)⟩
  intro compiled hcompiled
  exact Nat.le_trans (h.bounded compiled (hrules.subset hcompiled)) hversion

/-- The entries after a rule is put: some of those before, and the rule. -/
theorem compiledRules_put (catalog : Catalog) (compiled : CompiledRule) :
    (catalog.put compiled).compiledRules =
      (catalog.rules.erase compiled.id).entries.map Prod.snd ++ [compiled] := by
  show ((catalog.rules.erase compiled.id).entries ++ [(compiled.id, compiled)]).map Prod.snd = _
  rw [List.map_append]
  rfl

theorem mem_compiledRules_put {catalog : Catalog} {compiled other : CompiledRule}
    (h : other ∈ (catalog.put compiled).compiledRules) :
    other ∈ catalog.compiledRules ∨ other = compiled := by
  rw [compiledRules_put, List.mem_append, List.mem_singleton] at h
  exact h.imp_left fun hold => (List.filter_sublist.map Prod.snd).subset hold

/-- A faithful rule of a new version may be put in a sound catalog. -/
theorem Sound.put {catalog : Catalog} {compiled : CompiledRule} (h : catalog.Sound)
    (hfaithful : compiled.Faithful) (hpositive : 1 ≤ compiled.version)
    (hbounded : compiled.version ≤ catalog.version)
    (hnew : ∀ other ∈ catalog.compiledRules, other.version ≠ compiled.version) :
    (catalog.put compiled).Sound := by
  have hkept : (catalog.rules.erase compiled.id).entries.Sublist catalog.rules.entries :=
    List.filter_sublist
  refine ⟨?_, ?_, ?_, ?_, ?_⟩
  · intro entry hentry
    rcases List.mem_append.mp hentry with hold | hlast
    · exact h.ids entry (hkept.subset hold)
    · rw [List.mem_singleton.mp hlast]
  · intro other hother
    rcases mem_compiledRules_put hother with hold | rfl
    · exact h.faithful other hold
    · exact hfaithful
  · intro other hother
    rcases mem_compiledRules_put hother with hold | rfl
    · exact h.positive other hold
    · exact hpositive
  · intro other hother
    rcases mem_compiledRules_put hother with hold | rfl
    · exact h.bounded other hold
    · exact hbounded
  · rw [compiledRules_put, List.map_append, List.nodup_append]
    refine ⟨h.distinct.sublist ((hkept.map Prod.snd).map CompiledRule.version), by simp, ?_⟩
    intro version hversion last hlast
    obtain ⟨other, hother, rfl⟩ := List.mem_map.mp hversion
    obtain rfl : last = compiled.version := by simpa using hlast
    exact hnew other ((hkept.map Prod.snd).subset hother)

/-- Rules whose versions follow on from a bound on those of the entries may be put one after the
other. -/
theorem Sound.foldl_put {stored : List CompiledRule} {bound : Nat} {catalog : Catalog}
    (h : catalog.Sound) (hnumbered : Numbered bound stored)
    (hold : ∀ other ∈ catalog.compiledRules, other.version ≤ bound)
    (hlength : bound + stored.length ≤ catalog.version) :
    (stored.foldl Catalog.put catalog).Sound := by
  induction stored generalizing catalog bound with
  | nil => exact h
  | cons compiled stored ih =>
    obtain ⟨hfaithful, hversion, hlater⟩ := hnumbered
    rw [List.length_cons] at hlength
    rw [List.foldl_cons]
    -- The bound moves on with each rule, so that every version is new to the entries before it.
    refine ih (h.put hfaithful (by omega) (by omega) ?_) hlater ?_ ?_
    · intro other hother
      have hle := hold other hother
      omega
    · intro other hother
      rcases mem_compiledRules_put hother with hbefore | rfl
      · exact Nat.le_succ_of_le (hold other hbefore)
      · exact Nat.le_of_eq hversion
    · show bound + 1 + stored.length ≤ catalog.version
      omega

/-! ## Steps -/

variable {catalog next : Catalog} {attempts : List Rule} {loaded : List String}

/-- A change leaves a sound catalog sound. -/
theorem Sound.of_effect (h : catalog.Sound) (heffect : Effect catalog attempts loaded next) :
    next.Sound := by
  obtain ⟨kept, stored, hsublist, hnumbered, hlength, -, -, rfl⟩ := heffect
  have hkept : Sound ⟨kept, catalog.version + attempts.countP Rule.isCompilable⟩ :=
    h.of_sublist hsublist (Nat.le_add_right _ _)
  refine hkept.foldl_put hnumbered ?_ (Nat.add_le_add_left hlength _)
  intro other hother
  exact h.bounded other ((hsublist.map Prod.snd).subset hother)

/-- The version counts the compilations that succeed. -/
theorem Effect.version (h : Effect catalog attempts loaded next) :
    next.version = catalog.version + attempts.countP Rule.isCompilable := by
  obtain ⟨kept, stored, -, -, -, -, -, rfl⟩ := h
  rw [version_foldl_put]

/-- What is loaded stands under its id, with a version that is new. -/
theorem Effect.get?_of_mem (h : Effect catalog attempts loaded next) {id : String}
    (hid : id ∈ loaded) :
    ∃ compiled, next.get? id = some compiled ∧ compiled.rule ∈ attempts ∧
      catalog.version < compiled.version := by
  obtain ⟨kept, stored, -, hnumbered, -, hrules, rfl, rfl⟩ := h
  obtain ⟨compiled, hcompiled, hget⟩ := get?_foldl_put_of_mem hid
    ⟨kept, catalog.version + attempts.countP Rule.isCompilable⟩
  exact ⟨compiled, hget, hrules compiled hcompiled, hnumbered.lt_version compiled hcompiled⟩

/-- What is not loaded is as it was, or has been removed. -/
theorem Effect.get?_of_not_mem (h : Effect catalog attempts loaded next) {id : String}
    (hid : id ∉ loaded) {compiled : CompiledRule} (hget : next.get? id = some compiled) :
    catalog.get? id = some compiled := by
  obtain ⟨kept, stored, hsublist, -, -, -, rfl, rfl⟩ := h
  rw [get?_foldl_put_of_not_mem hid] at hget
  have hentry := (Table.get?_eq_some_iff kept).mp hget
  exact (Table.get?_eq_some_iff catalog.rules).mpr (hsublist.subset hentry)

/-! ## Runs -/

/-- The number of compilations that succeed in the course of changes. -/
def compilations (catalog : Catalog) : List CatalogChange → Nat
  | [] => 0
  | change :: changes =>
    (catalog.attempts change).countP Rule.isCompilable +
      (catalog.after change).compilations changes

theorem Sound.afterAll {catalog : Catalog} (h : catalog.Sound) (changes : List CatalogChange) :
    (catalog.afterAll changes).Sound := by
  induction changes generalizing catalog with
  | nil => exact h
  | cons change changes ih => exact ih (h.of_effect (effect_after catalog change))

/-- The catalogs that arise from the empty one are sound. -/
theorem Reachable.sound {catalog : Catalog} (h : catalog.Reachable) : catalog.Sound := by
  obtain ⟨changes, rfl⟩ := h
  exact sound_empty.afterAll changes

/-- The rules of a sound catalog have different ids, since they stand under them. -/
theorem Sound.nodup_ids {catalog : Catalog} (h : catalog.Sound) :
    (catalog.compiledRules.map CompiledRule.id).Nodup := by
  have hids : catalog.compiledRules.map CompiledRule.id = catalog.rules.entries.map Prod.fst := by
    rw [compiledRules, List.map_map]
    apply List.map_congr_left
    intro entry hentry
    exact (h.ids entry hentry).symm
  rw [hids]
  exact catalog.rules.nodup

/-- In a sound catalog a rule is found by its id. -/
theorem Sound.get?_eq_some_iff {catalog : Catalog} (h : catalog.Sound) {id : String}
    {compiled : CompiledRule} :
    catalog.get? id = some compiled ↔ compiled ∈ catalog.compiledRules ∧ compiled.id = id := by
  rw [get?, Table.get?_eq_some_iff]
  constructor
  · intro hentry
    exact ⟨List.mem_map_of_mem (f := Prod.snd) hentry, (h.ids _ hentry).symm⟩
  · rintro ⟨hmem, rfl⟩
    obtain ⟨⟨id, stored⟩, hentry, rfl⟩ := List.mem_map.mp hmem
    rw [← h.ids _ hentry]
    exact hentry

theorem version_afterAll (catalog : Catalog) (changes : List CatalogChange) :
    (catalog.afterAll changes).version = catalog.version + catalog.compilations changes := by
  induction changes generalizing catalog with
  | nil => rfl
  | cons change changes ih =>
    rw [compilations, ← Nat.add_assoc, ← (effect_after catalog change).version]
    exact ih (catalog.after change)

/-- **Catalogs stay sound.** After any changes of the empty catalog, successful or not, the
catalog is sound and its version is the number of compilations that have succeeded. A further
change raises the versions of all rules that it loads, which for a single rule means that it can
be compiled, and leaves the entries of other ids as they are unless it removes them. -/
theorem afterAll_empty_sound (changes : List CatalogChange) :
    let catalog := empty.afterAll changes
    catalog.Sound ∧ catalog.version = empty.compilations changes ∧
    (∀ change, ∀ id ∈ catalog.loadedIds change,
      ∃ compiled, (catalog.after change).get? id = some compiled ∧
        compiled.rule ∈ catalog.attempts change ∧
        ∀ old, catalog.get? id = some old → old.version < compiled.version) ∧
    (∀ rule : Rule, rule.id ∈ catalog.loadedIds (.load rule) ↔ rule.isCompilable = true) ∧
    (∀ rule : Rule, rule.id ∈ catalog.loadedIds (.update rule) ↔
      catalog.contains rule.id = true ∧ rule.isCompilable = true) ∧
    ∀ change id, id ∉ catalog.loadedIds change →
      ∀ compiled, (catalog.after change).get? id = some compiled →
        catalog.get? id = some compiled := by
  intro catalog
  have hsound : catalog.Sound := sound_empty.afterAll changes
  refine ⟨hsound, ?_, ?_, fun rule => mem_loadedIds_load, fun rule => mem_loadedIds_update, ?_⟩
  · rw [version_afterAll]
    exact Nat.zero_add _
  · intro change id hid
    obtain ⟨compiled, hget, hrule, hversion⟩ := (effect_after catalog change).get?_of_mem hid
    refine ⟨compiled, hget, hrule, ?_⟩
    intro old hold
    have hentry := (Table.get?_eq_some_iff catalog.rules).mp hold
    have hbound := hsound.bounded old (List.mem_map_of_mem (f := Prod.snd) hentry)
    omega
  · intro change id hid compiled hget
    exact (effect_after catalog change).get?_of_not_mem hid hget

/-- A rule that is loaded twice. -/
theorem afterAll_empty_sound_twice :
    ∃ rule : Rule, rule.isCompilable = true ∧ ∃ old new,
      (empty.after (.load rule)).get? rule.id = some old ∧
      ((empty.after (.load rule)).after (.load rule)).get? rule.id = some new ∧
      old.version < new.version := by
  have hcompilable : Rule.isCompilable {
      id := "fee", name := "Fee", country := "DE", type := .baseFee
      expression := "max(150, turnover * 0.1)", condition := some "turnover"
      priority := 1, effectiveFrom := ⟨2023, 1, 1, by decide⟩, effectiveTo := none
      parameters := [⟨"turnover", .decimal, none, none⟩]
      description := none, createdAt := none, updatedAt := none } = true := by
    decide +kernel
  refine ⟨_, hcompilable, ?_⟩
  obtain ⟨-, -, hfirst, hload, -⟩ := afterAll_empty_sound []
  obtain ⟨old, hold, -, -⟩ := hfirst (.load _) _ ((hload _).mpr hcompilable)
  obtain ⟨-, -, hsecond, hload', -⟩ := afterAll_empty_sound [.load _]
  obtain ⟨new, hnew, -, hversion⟩ := hsecond (.load _) _ ((hload' _).mpr hcompilable)
  exact ⟨old, new, hold, hnew, hversion old hold⟩

end Catalog

end Tariff
