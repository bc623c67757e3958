/-
# Batches are loads in turn

A list of rules is compiled as a whole before any of it is stored. All the same it leaves the
catalog that its rules leave when they are loaded one after the other, of each id the first one,
and it reports what each of these loads gives. Only the policy to abort tells the two apart, and
only in the entries: the versions are used up either way.

* `foldl_put_compileBatch` : the catalog that a list leaves;
* `failures_loadInTurn`, `loadedRules_loadInTurn` : what is reported about a list;
* `loadBatch_eq_loads_in_turn` : a list against single loads, under both policies.
-/
import Tariff.Proofs.Catalog.Effect

namespace Tariff

namespace Catalog

/-! ## Loads in turn -/

/-- Loads rules one after the other, whether or not those before have failed, and tells what each
load gives. A rule is not loaded if its id was seen, that is, if a rule of this id came before. -/
def loadInTurn (seen : List String) (catalog : Catalog) :
    List Rule → List (Rule × Except RuleError Unit)
  | [] => []
  | rule :: rules =>
    if seen.contains rule.id then
      (rule, .error (.invalidRule rule.id .repeatedId)) :: loadInTurn seen catalog rules
    else
      (rule, (catalog.load rule).1) :: loadInTurn (rule.id :: seen) (catalog.load rule).2 rules

/-- The rules that were loaded. -/
def loadedRules (turns : List (Rule × Except RuleError Unit)) : List Rule :=
  (turns.filter fun turn => turn.2.isOk).map Prod.fst

/-- The rules that were not loaded, by their ids and with the reasons. -/
def failures (turns : List (Rule × Except RuleError Unit)) : List (String × RuleError) :=
  turns.filterMap fun (rule, outcome) =>
    match outcome with
    | .ok () => none
    | .error error => some (rule.id, error)

@[simp] theorem loadedRules_cons_ok (rule : Rule) (turns : List (Rule × Except RuleError Unit)) :
    loadedRules ((rule, .ok ()) :: turns) = rule :: loadedRules turns := rfl

@[simp] theorem loadedRules_cons_error (rule : Rule) (error : RuleError)
    (turns : List (Rule × Except RuleError Unit)) :
    loadedRules ((rule, .error error) :: turns) = loadedRules turns := rfl

@[simp] theorem failures_cons_ok (rule : Rule) (turns : List (Rule × Except RuleError Unit)) :
    failures ((rule, .ok ()) :: turns) = failures turns := rfl

@[simp] theorem failures_cons_error (rule : Rule) (error : RuleError)
    (turns : List (Rule × Except RuleError Unit)) :
    failures ((rule, .error error) :: turns) = (rule.id, error) :: failures turns := rfl

/-- Each rule has its turn. -/
theorem map_fst_loadInTurn (seen : List String) (catalog : Catalog) (rules : List Rule) :
    (loadInTurn seen catalog rules).map Prod.fst = rules := by
  induction rules generalizing seen catalog with
  | nil => rfl
  | cons rule rules ih =>
    rw [loadInTurn]
    split
    · rw [List.map_cons, ih]
    · rw [List.map_cons, ih]

/-- Each turn is either a load or a failure. -/
theorem length_loadedRules_add_length_failures (turns : List (Rule × Except RuleError Unit)) :
    (loadedRules turns).length + (failures turns).length = turns.length := by
  induction turns with
  | nil => rfl
  | cons turn turns ih =>
    obtain ⟨rule, ⟨⟩ | error⟩ := turn
    · rw [loadedRules_cons_error, failures_cons_error, List.length_cons, List.length_cons]
      omega
    · rw [loadedRules_cons_ok, failures_cons_ok, List.length_cons, List.length_cons]
      omega

/-- No id is loaded twice, and none that was seen. -/
theorem nodup_loadedRules_loadInTurn (seen : List String) (catalog : Catalog)
    (rules : List Rule) :
    ((loadedRules (loadInTurn seen catalog rules)).map Rule.id).Nodup ∧
      ∀ rule ∈ loadedRules (loadInTurn seen catalog rules), rule.id ∉ seen := by
  induction rules generalizing seen catalog with
  | nil => exact ⟨List.nodup_nil, by simp [loadInTurn, loadedRules]⟩
  | cons rule rules ih =>
    rw [loadInTurn]
    by_cases hseen : seen.contains rule.id = true
    · rw [if_pos hseen, loadedRules_cons_error]
      exact ih seen catalog
    · rw [if_neg hseen]
      obtain ⟨hnodup, hnew⟩ := ih (rule.id :: seen) (catalog.load rule).2
      have hrest : ∀ other ∈ loadedRules
          (loadInTurn (rule.id :: seen) (catalog.load rule).2 rules), other.id ∉ seen := by
        intro other hother hmem
        exact hnew other hother (List.mem_cons_of_mem rule.id hmem)
      cases (catalog.load rule).1 with
      | error error => exact ⟨hnodup, hrest⟩
      | ok =>
        rw [loadedRules_cons_ok, List.map_cons, List.nodup_cons]
        refine ⟨⟨?_, hnodup⟩, ?_⟩
        · intro hmem
          obtain ⟨other, hother, hid⟩ := List.mem_map.mp hmem
          exact hnew other hother (hid ▸ List.mem_cons_self)
        · exact List.forall_mem_cons.mpr ⟨by simpa using hseen, hrest⟩

/-! ## Lists of rules -/

/-- What a load gives, by the compilation of the rule. -/
theorem load_of_compile_ok {catalog : Catalog} {rule : Rule} {compiled : CompiledRule}
    (h : rule.compile catalog.version = .ok compiled) :
    catalog.load rule = (.ok (), { catalog with version := compiled.version }.put compiled) := by
  rw [load, h]

theorem load_of_compile_error {catalog : Catalog} {rule : Rule} {error : RuleError}
    (h : rule.compile catalog.version = .error error) :
    catalog.load rule = (.error error, catalog) := by
  rw [load, h]

/-- The rules that a list compiles are those that are loaded in turn. -/
theorem loadedRules_loadInTurn (seen : List String) (catalog : Catalog) (rules : List Rule) :
    loadedRules (loadInTurn seen catalog rules) =
      (compileBatch seen catalog.version rules).compiled.map CompiledRule.rule := by
  induction rules generalizing seen catalog with
  | nil => rfl
  | cons rule rules ih =>
    rw [loadInTurn, compileBatch]
    by_cases hseen : seen.contains rule.id = true
    · rw [if_pos hseen, if_pos hseen]
      exact ih seen catalog
    · rw [if_neg hseen, if_neg hseen]
      cases hcompile : rule.compile catalog.version with
      | ok compiled =>
        rw [load_of_compile_ok hcompile, loadedRules_cons_ok, ih]
        show rule :: _ = compiled.rule :: _
        rw [rule_of_compile hcompile]
        rfl
      | error error =>
        rw [load_of_compile_error hcompile, loadedRules_cons_error, ih]

/-- The rules on which a list fails are those that fail in turn, for the same reasons. -/
theorem failures_loadInTurn (seen : List String) (catalog : Catalog) (rules : List Rule) :
    failures (loadInTurn seen catalog rules) =
      (compileBatch seen catalog.version rules).failed := by
  induction rules generalizing seen catalog with
  | nil => rfl
  | cons rule rules ih =>
    rw [loadInTurn, compileBatch]
    by_cases hseen : seen.contains rule.id = true
    · rw [if_pos hseen, if_pos hseen, failures_cons_error, ih]
    · rw [if_neg hseen, if_neg hseen]
      cases hcompile : rule.compile catalog.version with
      | ok compiled =>
        rw [load_of_compile_ok hcompile, failures_cons_ok, ih]
        rfl
      | error error => rw [load_of_compile_error hcompile, failures_cons_error, ih]

/-- To put the rules of a list at the end, all at once, is to load them in turn: a version that is
set beforehand does not show in the entries. -/
theorem foldl_put_compileBatch (seen : List String) (catalog : Catalog) (rules : List Rule) :
    (compileBatch seen catalog.version rules).compiled.foldl put
        { catalog with version := (compileBatch seen catalog.version rules).version } =
      catalog.afterAll
        ((firstOfEachId (rules.filter fun rule => !seen.contains rule.id)).map .load) := by
  induction rules generalizing seen catalog with
  | nil => rfl
  | cons rule rules ih =>
    rw [compileBatch]
    by_cases hseen : seen.contains rule.id = true
    · rw [if_pos hseen, List.filter_cons_of_neg (by simpa using hseen)]
      exact ih seen catalog
    · rw [if_neg hseen, firstOfEachId_filter_cons hseen, List.map_cons]
      show _ = (catalog.load rule).2.afterAll _
      rw [← ih]
      cases hcompile : rule.compile catalog.version with
      | ok compiled => rw [load_of_compile_ok hcompile]; rfl
      | error error => rw [load_of_compile_error hcompile]

/-- **A list of rules is loaded as its rules in turn.** Under the policy to skip, a list leaves the
catalog that the first rules of each id leave when they are loaded one after the other. It reports
the ids of the rules that are loaded, no id twice, and the others with the reasons of their own
loads or as repeated ids; each rule of the list is reported once. The policy to abort does the
same if no rule fails. Otherwise it returns the first of the failures and leaves all entries as
they are, but the versions of the rules that would have been loaded are used up. -/
theorem loadBatch_eq_loads_in_turn (catalog : Catalog) (rules : List Rule) :
    let turns := catalog.loadInTurn [] rules
    let report : BatchReport := ⟨(loadedRules turns).map Rule.id, failures turns⟩
    let next := catalog.afterAll ((firstOfEachId rules).map .load)
    turns.map Prod.fst = rules ∧
    catalog.loadBatch .skip rules = (.ok report, next) ∧
    report.loaded.Nodup ∧ report.loaded.length + report.failed.length = rules.length ∧
    catalog.loadBatch .abort rules =
      match report.failed with
      | [] => (.ok report, next)
      | (_, error) :: _ =>
        (.error error, { catalog with version := catalog.version + report.loaded.length }) := by
  intro turns report next
  have hrules : (rules.filter fun rule => !([] : List String).contains rule.id) = rules := by simp
  have hloaded : report.loaded =
      (compileBatch [] catalog.version rules).compiled.map CompiledRule.id := by
    show (loadedRules turns).map Rule.id = _
    rw [loadedRules_loadInTurn, List.map_map]
    rfl
  have hfailed : report.failed = (compileBatch [] catalog.version rules).failed :=
    failures_loadInTurn [] catalog rules
  have hnext : (compileBatch [] catalog.version rules).compiled.foldl put
      { catalog with version := (compileBatch [] catalog.version rules).version } = next := by
    rw [foldl_put_compileBatch, hrules]
  have hversion : (compileBatch [] catalog.version rules).version =
      catalog.version + report.loaded.length := by
    rw [(compileBatch_spec [] catalog.version rules).2.2, hloaded, List.length_map]
  have hreport : BatchReport.mk
      ((compileBatch [] catalog.version rules).compiled.map CompiledRule.id)
      (compileBatch [] catalog.version rules).failed = report := by
    rw [← hloaded, ← hfailed]
  refine ⟨map_fst_loadInTurn [] catalog rules, ?_, ?_, ?_, ?_⟩
  · rw [loadBatch, hnext, hreport]
  · exact (nodup_loadedRules_loadInTurn [] catalog rules).1
  · show ((loadedRules turns).map Rule.id).length + (failures turns).length = _
    rw [List.length_map, length_loadedRules_add_length_failures,
      ← List.length_map (f := Prod.fst), map_fst_loadInTurn]
  · unfold loadBatch
    dsimp only
    rw [hnext, hreport, ← hversion, ← hfailed]
    rcases report.failed with _ | ⟨⟨id, error⟩, others⟩
    · rfl
    · rfl

end Catalog

end Tariff
