/-
# What a change does

Every change of a catalog, whether it succeeds or fails, does the same in principle. It tries to
compile some rules, each of which uses up a version if it can be compiled; it keeps some of the
entries; and it puts some of the compiled rules under their ids. `Effect` says so, and all that
is known about single changes is derived from it.

* `compileBatch_spec` : what the compilation of a list yields;
* `effect_after` : every change has such an effect.
-/
import Tariff.Catalog.Change
import Tariff.Proofs.Rule.Compilation

namespace Tariff

/-! ## Compilation of a list -/

/-- The rules whose ids have not come before in the list. -/
def firstOfEachId (rules : List Rule) : List Rule :=
  rules.eraseDupsBy fun rule other => rule.id == other.id

/-- Compiled rules that are faithful and that use up the versions after `version` in turn. -/
def Numbered (version : Nat) : List CompiledRule → Prop
  | [] => True
  | compiled :: others =>
    compiled.Faithful ∧ compiled.version = version + 1 ∧ Numbered (version + 1) others

theorem Numbered.lt_version {version : Nat} {compiled : List CompiledRule}
    (h : Numbered version compiled) : ∀ one ∈ compiled, version < one.version := by
  induction compiled generalizing version with
  | nil => simp
  | cons first others ih =>
    obtain ⟨-, hversion, hothers⟩ := h
    intro one hone
    rcases List.mem_cons.mp hone with rfl | hone
    · omega
    · have hlater := ih hothers one hone
      omega

theorem firstOfEachId_cons (rule : Rule) (rules : List Rule) :
    firstOfEachId (rule :: rules) =
      rule :: firstOfEachId (rules.filter fun other => other.id != rule.id) := by
  rw [firstOfEachId, List.eraseDupsBy_cons, firstOfEachId]
  congr 3
  funext other
  rw [Bool.eq_iff_iff]
  simp

/-- A rule of a new id comes first, and its id is seen from there on. -/
theorem firstOfEachId_filter_cons {seen : List String} {rule : Rule}
    (h : ¬ seen.contains rule.id = true) (rules : List Rule) :
    firstOfEachId ((rule :: rules).filter fun other => !seen.contains other.id) =
      rule :: firstOfEachId (rules.filter fun other => !(rule.id :: seen).contains other.id) := by
  rw [List.filter_cons_of_pos (by simpa using h), firstOfEachId_cons, List.filter_filter]
  congr 2
  apply List.filter_congr
  intro other hother
  rw [Bool.eq_iff_iff]
  simp

/-- No id has come before the first rule. -/
theorem filter_unseen_nil (rules : List Rule) :
    (rules.filter fun rule => !([] : List String).contains rule.id) = rules := by
  simp

/-- A list is compiled rule by rule, those aside whose ids were seen before. The ids that were
seen and the version grow along the list, so that the induction is for any of them. -/
theorem compileBatch_spec (seen : List String) (version : Nat) (rules : List Rule) :
    Numbered version (compileBatch seen version rules).compiled ∧
    (compileBatch seen version rules).compiled.map CompiledRule.rule =
      (firstOfEachId (rules.filter fun rule => !seen.contains rule.id)).filter
        Rule.isCompilable ∧
    (compileBatch seen version rules).version =
      version + (compileBatch seen version rules).compiled.length := by
  induction rules generalizing seen version with
  | nil => exact ⟨trivial, rfl, rfl⟩
  | cons rule rules ih =>
    rw [compileBatch]
    by_cases hseen : seen.contains rule.id = true
    · rw [if_pos hseen, List.filter_cons_of_neg (by simpa using hseen)]
      exact ih seen version
    · rw [if_neg hseen, firstOfEachId_filter_cons hseen]
      cases hcompile : rule.compile version with
      | ok compiled =>
        obtain ⟨hnumbered, hrules, hversion⟩ := ih (rule.id :: seen) (version + 1)
        have hcompilable : rule.isCompilable = true :=
          exists_compile_iff.mp ⟨compiled, hcompile⟩
        have hnext : compiled.version = version + 1 := version_of_compile hcompile
        rw [List.filter_cons_of_pos hcompilable]
        simp only [hnext]
        refine ⟨⟨faithful_of_compile hcompile, hnext, hnumbered⟩, ?_, ?_⟩
        · show compiled.rule :: _ = _
          rw [hrules, rule_of_compile hcompile]
        · rw [hversion, List.length_cons]
          omega
      | error error =>
        have hcompilable : ¬ rule.isCompilable = true := by
          rw [← @exists_compile_iff rule version, hcompile]
          rintro ⟨compiled, h⟩
          contradiction
        rw [List.filter_cons_of_neg hcompilable]
        exact ih (rule.id :: seen) version

/-! ## Effects -/

namespace Catalog

/-- The effect of a change: of the rules that it tries to compile, those that can be compiled use
up a version each, whether or not they are stored; some entries are kept; and compiled rules are
put under their ids, which are those that are reported as loaded. -/
inductive Effect (catalog : Catalog) (attempts : List Rule) (loaded : List String)
    (next : Catalog) : Prop where
  | intro (kept : Table CompiledRule) (stored : List CompiledRule)
      (sublist : kept.entries.Sublist catalog.rules.entries)
      (numbered : Numbered catalog.version stored)
      (length : stored.length ≤ attempts.countP Rule.isCompilable)
      (rules : ∀ compiled ∈ stored, compiled.rule ∈ attempts)
      (ids : stored.map CompiledRule.id = loaded)
      (result : next = stored.foldl put
        ⟨kept, catalog.version + attempts.countP Rule.isCompilable⟩)

/-- The rules that a change tries to compile. -/
def attempts (catalog : Catalog) : CatalogChange → List Rule
  | .load rule => [rule]
  | .loadText text => (Rule.ofText text).toOption.toList
  | .update rule => if catalog.contains rule.id then [rule] else []
  | .delete _ => []
  | .loadBatch _ rules => firstOfEachId rules
  | .loadBatchText _ text => firstOfEachId ((Rule.listOfText text).toOption.getD [])
  | .clear => []

/-- The ids of a report, if there is one. -/
def reportedIds (result : Except RuleError BatchReport) : List String :=
  (result.toOption.map BatchReport.loaded).getD []

/-- The ids that a change reports as loaded. -/
def loadedIds (catalog : Catalog) : CatalogChange → List String
  | .load rule => ((catalog.load rule).1.toOption.map fun _ => rule.id).toList
  | .loadText text => (catalog.loadText text).1.toOption.toList
  | .update rule => ((catalog.update rule).1.toOption.map fun _ => rule.id).toList
  | .delete _ => []
  | .loadBatch policy rules => reportedIds (catalog.loadBatch policy rules).1
  | .loadBatchText policy text => reportedIds (catalog.loadBatchText policy text).1
  | .clear => []

/-- Entries may be removed. -/
theorem effect_remove (catalog : Catalog) {kept : Table CompiledRule}
    (h : kept.entries.Sublist catalog.rules.entries) :
    Effect catalog [] [] { catalog with rules := kept } :=
  .intro kept [] h trivial (Nat.le_refl 0) (by simp) rfl rfl

/-- A failure of which no compilation was part has no effect. -/
theorem effect_unchanged (catalog : Catalog) : Effect catalog [] [] catalog :=
  effect_remove catalog (List.Sublist.refl _)

/-- A rule that is compiled is stored; one that cannot be compiled has no effect. -/
theorem effect_load (catalog : Catalog) (rule : Rule) :
    Effect catalog [rule] (catalog.loadedIds (.load rule)) (catalog.load rule).2 := by
  rw [loadedIds, load]
  cases hcompile : rule.compile catalog.version with
  | ok compiled =>
    have hcount : [rule].countP Rule.isCompilable = 1 := by
      rw [List.countP_singleton, if_pos (exists_compile_iff.mp ⟨compiled, hcompile⟩)]
    have hnext : compiled.version = catalog.version + 1 := version_of_compile hcompile
    have hrule : compiled.rule = rule := rule_of_compile hcompile
    refine .intro catalog.rules [compiled] (List.Sublist.refl _)
      ⟨faithful_of_compile hcompile, hnext, trivial⟩ ?_ (by simp [hrule]) ?_ ?_
    · exact Nat.le_of_eq hcount.symm
    · rw [← hrule]
      rfl
    · rw [hcount, ← hnext]
      rfl
  | error error =>
    have hcount : [rule].countP Rule.isCompilable = 0 := by
      rw [List.countP_singleton, if_neg]
      rw [← @exists_compile_iff rule catalog.version, hcompile]
      rintro ⟨compiled, h⟩
      contradiction
    refine .intro catalog.rules [] (List.Sublist.refl _) trivial (Nat.zero_le _) (by simp) rfl ?_
    rw [hcount]
    rfl

/-- Loading succeeds exactly for the rules that can be compiled. -/
theorem mem_loadedIds_load {catalog : Catalog} {rule : Rule} :
    rule.id ∈ catalog.loadedIds (.load rule) ↔ rule.isCompilable = true := by
  rw [loadedIds, load, ← @exists_compile_iff rule catalog.version]
  cases hcompile : rule.compile catalog.version with
  | ok compiled => simp [Except.toOption]
  | error error => simp [Except.toOption]

/-- Updating succeeds exactly for the rules that can be compiled and whose id is there. -/
theorem mem_loadedIds_update {catalog : Catalog} {rule : Rule} :
    rule.id ∈ catalog.loadedIds (.update rule) ↔
      catalog.contains rule.id = true ∧ rule.isCompilable = true := by
  rw [loadedIds, update]
  by_cases hcontains : catalog.contains rule.id = true
  · rw [if_pos hcontains, and_iff_right hcontains]
    exact mem_loadedIds_load
  · rw [if_neg hcontains]
    simp [Except.toOption, hcontains]

/-- A list of rules uses up versions under either policy; under the one to abort, rules are
stored only if none has failed. -/
theorem effect_loadBatch (catalog : Catalog) (policy : InvalidRulePolicy) (rules : List Rule) :
    Effect catalog (firstOfEachId rules) (reportedIds (catalog.loadBatch policy rules).1)
      (catalog.loadBatch policy rules).2 := by
  obtain ⟨hnumbered, hrules, hversion⟩ := compileBatch_spec [] catalog.version rules
  rw [filter_unseen_nil] at hrules
  have hcount : (firstOfEachId rules).countP Rule.isCompilable =
      (compileBatch [] catalog.version rules).compiled.length := by
    rw [List.countP_eq_length_filter, ← hrules, List.length_map]
  have hstored : ∀ compiled ∈ (compileBatch [] catalog.version rules).compiled,
      compiled.rule ∈ firstOfEachId rules := by
    intro compiled hcompiled
    have hmem := List.mem_map_of_mem (f := CompiledRule.rule) hcompiled
    rw [hrules] at hmem
    exact (List.mem_filter.mp hmem).1
  unfold loadBatch
  dsimp only
  split
  · refine .intro catalog.rules [] (List.Sublist.refl _) trivial (Nat.zero_le _) (by simp) rfl ?_
    rw [hcount, ← hversion]
    rfl
  all_goals
    refine .intro catalog.rules _ (List.Sublist.refl _) hnumbered (Nat.le_of_eq hcount.symm)
      hstored rfl ?_
    rw [hcount, ← hversion]

/-- Every change has its effect, whether it succeeds or fails. -/
theorem effect_after (catalog : Catalog) (change : CatalogChange) :
    Effect catalog (catalog.attempts change) (catalog.loadedIds change)
      (catalog.after change) := by
  cases change with
  | load rule => exact effect_load catalog rule
  | loadText text =>
    rw [attempts, loadedIds, after, loadText]
    cases Rule.ofText text with
    | ok rule =>
      have hids : ((catalog.load rule).1.map fun _ => rule.id).toOption.toList =
          catalog.loadedIds (.load rule) := by
        rw [loadedIds]
        cases (catalog.load rule).1 <;> rfl
      show Effect catalog [rule] ((catalog.load rule).1.map fun _ => rule.id).toOption.toList
        (catalog.load rule).2
      rw [hids]
      exact effect_load catalog rule
    | error error => exact effect_unchanged catalog
  | update rule =>
    rw [attempts, loadedIds, after, update]
    split
    · exact effect_load catalog rule
    · exact effect_unchanged catalog
  | delete id =>
    rw [after, delete]
    split
    · exact effect_remove catalog List.filter_sublist
    · exact effect_unchanged catalog
  | loadBatch policy rules => exact effect_loadBatch catalog policy rules
  | loadBatchText policy text =>
    rw [attempts, loadedIds, after, loadBatchText]
    cases Rule.listOfText text with
    | ok rules => exact effect_loadBatch catalog policy rules
    | error error => exact effect_unchanged catalog
  | clear => exact effect_remove catalog (List.nil_sublist _)

end Catalog

end Tariff
