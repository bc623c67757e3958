/-
# Rules at hand

Rules that are given for one calculation are treated like a list that is loaded into the empty
catalog: the same rules are accepted, or the same error is returned. The values are those of the
accepted rules, and the first one without a value decides.

* `compileGiven_eq_accepted` : which rules are accepted;
* `compileBatch_cleaned` : rules that are never accepted may be left out beforehand;
* `loadBatch_eq_accepted` : a list is loaded if its rules are accepted;
* `evaluateRules_eq_ok`, `evaluateRules_eq_error_iff` : the values of rules;
* `evaluateGiven_agrees_with_catalog` : rules at hand against the empty catalog.
-/
import Tariff.Estimate.Basic
import Tariff.Proofs.Catalog.Applicable
import Tariff.Proofs.Catalog.Batch

namespace Tariff

/-! ## Acceptance -/

/-- What a policy makes of the compilation of a list: the rules that were compiled, unless a failure
is not to be accepted. -/
def BatchCompilation.accepted (policy : InvalidRulePolicy) (batch : BatchCompilation) :
    Except RuleError (List CompiledRule) :=
  match policy, batch.failed with
  | .abort, (_, error) :: _ => .error error
  | .abort, [] => .ok batch.compiled
  | .skip, _ => .ok batch.compiled

namespace BatchCompilation

variable {policy : InvalidRulePolicy}

theorem accepted_cons (batch : BatchCompilation) (compiled : CompiledRule) :
    accepted policy { batch with compiled := compiled :: batch.compiled } =
      (batch.accepted policy).map (compiled :: ·) := by
  obtain ⟨others, _ | ⟨⟨id, error⟩, failed⟩, version⟩ := batch
  · cases policy <;> rfl
  · cases policy <;> rfl

theorem accepted_abort_failed (batch : BatchCompilation) (id : String) (error : RuleError) :
    accepted .abort { batch with failed := (id, error) :: batch.failed } = .error error := rfl

theorem accepted_skip (batch : BatchCompilation) : batch.accepted .skip = .ok batch.compiled := rfl

theorem accepted_of_complete {batch : BatchCompilation} (h : batch.failed = []) :
    batch.accepted policy = .ok batch.compiled := by
  unfold accepted
  rw [h]
  cases policy <;> rfl

/-- What is accepted is all that was compiled. -/
theorem compiled_of_accepted {batch : BatchCompilation} {compiled : List CompiledRule}
    (h : batch.accepted policy = .ok compiled) : compiled = batch.compiled := by
  unfold accepted at h
  split at h
  · cases h
  · cases h
    rfl
  · cases h
    rfl

end BatchCompilation

/-- Rules at hand are accepted like those of a list. -/
theorem compileGiven_eq_accepted (policy : InvalidRulePolicy) {given seen : List String}
    (hseen : ∀ id, given.contains id = seen.contains id) (version : Nat) (rules : List Rule) :
    compileGiven policy given version rules =
      (compileBatch seen version rules).accepted policy := by
  induction rules generalizing given seen version with
  | nil => cases policy <;> rfl
  | cons rule rules ih =>
    have hnext : ∀ id, (rule.id :: given).contains id = (rule.id :: seen).contains id := by
      intro id
      rw [List.contains_cons, List.contains_cons, hseen]
    unfold compileGiven compileBatch
    dsimp only
    by_cases hrepeated : seen.contains rule.id = true
    · rw [if_pos ((hseen rule.id).trans hrepeated), if_pos hrepeated]
      cases policy with
      | abort => rw [BatchCompilation.accepted_abort_failed]
      | skip =>
        -- An id that comes again has been seen already.
        have hsame : ∀ id, (rule.id :: given).contains id = seen.contains id := by
          intro id
          rw [List.contains_cons, hseen, Bool.or_eq_right_iff_imp, beq_iff_eq]
          rintro rfl
          exact hrepeated
        exact ih hsame version
    · rw [if_neg ((hseen rule.id) ▸ hrepeated), if_neg hrepeated]
      cases hcompile : rule.compile version with
      | ok compiled =>
        dsimp only
        rw [BatchCompilation.accepted_cons, ih hnext]
      | error error =>
        cases policy with
        | abort => rw [BatchCompilation.accepted_abort_failed]
        | skip => exact ih hnext version

/-- Rules whose ids have come before and rules that cannot be compiled may be left out. -/
theorem compileBatch_cleaned {given seen : List String} (hseen : given ⊆ seen) (version : Nat)
    (rules : List Rule) :
    compileBatch given version
        ((firstOfEachId (rules.filter fun rule => !seen.contains rule.id)).filter
          Rule.isCompilable) =
      { compileBatch seen version rules with failed := [] } := by
  induction rules generalizing given seen version with
  | nil => rfl
  | cons rule rules ih =>
    rw [compileBatch]
    by_cases hrepeated : seen.contains rule.id = true
    · rw [if_pos hrepeated, List.filter_cons_of_neg (by simpa using hrepeated)]
      exact ih hseen version
    · rw [if_neg hrepeated, firstOfEachId_filter_cons hrepeated]
      cases hcompile : rule.compile version with
      | ok compiled =>
        have hcompilable : rule.isCompilable = true :=
          exists_compile_iff.mp ⟨compiled, hcompile⟩
        have hnew : ¬ given.contains rule.id = true := by
          rw [List.contains_iff_mem] at hrepeated ⊢
          exact fun hmem => hrepeated (hseen hmem)
        rw [List.filter_cons_of_pos hcompilable, compileBatch, if_neg hnew, hcompile]
        dsimp only
        rw [ih (List.cons_subset_cons rule.id hseen)]
      | error error =>
        have hcompilable : ¬ rule.isCompilable = true := by
          rw [← @exists_compile_iff rule version, hcompile]
          rintro ⟨compiled, h⟩
          cases h
        rw [List.filter_cons_of_neg hcompilable]
        exact ih (List.subset_cons_of_subset rule.id hseen) version

/-! ## The empty catalog -/

namespace Catalog

theorem rules_foldl_put (stored : List CompiledRule) (catalog : Catalog) :
    (stored.foldl put catalog).rules =
      catalog.rules.insertAll (stored.map fun compiled => (compiled.id, compiled)) := by
  induction stored generalizing catalog with
  | nil => rfl
  | cons compiled stored ih => exact ih (catalog.put compiled)

/-- Rules of different ids that are put in a catalog without rules are all its rules. -/
theorem compiledRules_foldl_put {stored : List CompiledRule}
    (h : (stored.map CompiledRule.id).Nodup) (version : Nat) :
    (stored.foldl put ⟨.empty, version⟩).compiledRules = stored := by
  have hnames : (stored.map fun compiled => (compiled.id, compiled)).map Prod.fst =
      stored.map CompiledRule.id := by
    rw [List.map_map]
    rfl
  rw [compiledRules, rules_foldl_put]
  show ((Table.ofList (stored.map fun compiled => (compiled.id, compiled))).entries).map _ = _
  rw [Table.entries_ofList (hnames ▸ h), List.map_map]
  exact List.map_id stored

/-- The rules that a list compiles have different ids. -/
theorem nodup_compileBatch (version : Nat) (rules : List Rule) :
    ((compileBatch [] version rules).compiled.map CompiledRule.id).Nodup := by
  have hnodup := (nodup_loadedRules_loadInTurn [] ⟨.empty, version⟩ rules).1
  rw [loadedRules_loadInTurn, List.map_map] at hnodup
  exact hnodup

variable {policy : InvalidRulePolicy} {rules : List Rule}

/-- A list is loaded if its rules are accepted. -/
theorem loadBatch_eq_accepted (catalog : Catalog) :
    catalog.loadBatch policy rules =
      match (compileBatch [] catalog.version rules).accepted policy with
      | .ok compiled =>
        (.ok ⟨compiled.map CompiledRule.id, (compileBatch [] catalog.version rules).failed⟩,
          compiled.foldl put
            { catalog with version := (compileBatch [] catalog.version rules).version })
      | .error error =>
        (.error error,
          { catalog with version := (compileBatch [] catalog.version rules).version }) := by
  unfold loadBatch
  obtain ⟨compiled, _ | ⟨⟨id, error⟩, failed⟩, version⟩ :=
    compileBatch [] catalog.version rules
  · cases policy <;> rfl
  · cases policy <;> rfl

/-- A list that is loaded into the empty catalog is refused or reported as its rules are
accepted. -/
theorem fst_loadBatch_empty :
    (empty.loadBatch policy rules).1 =
      ((compileBatch [] 0 rules).accepted policy).map fun compiled =>
        ⟨compiled.map CompiledRule.id, (compileBatch [] 0 rules).failed⟩ := by
  rw [loadBatch_eq_accepted, show empty.version = 0 from rfl]
  cases (compileBatch [] 0 rules).accepted policy <;> rfl

/-- The empty catalog then has the rules that are accepted. -/
theorem compiledRules_loadBatch_empty {compiled : List CompiledRule}
    (h : (compileBatch [] 0 rules).accepted policy = .ok compiled) :
    (empty.loadBatch policy rules).2.compiledRules = compiled := by
  have hcompiled : compiled = (compileBatch [] 0 rules).compiled :=
    BatchCompilation.compiled_of_accepted h
  have hnodup : (compiled.map CompiledRule.id).Nodup := hcompiled ▸ nodup_compileBatch 0 rules
  rw [loadBatch_eq_accepted, show empty.version = 0 from rfl, h]
  exact compiledRules_foldl_put hnodup _

/-- Where nothing is invalid, the policy does not matter. -/
theorem loadBatch_empty_of_complete (h : (compileBatch [] 0 rules).failed = []) :
    empty.loadBatch .skip rules = empty.loadBatch .abort rules := by
  rw [loadBatch_eq_accepted, loadBatch_eq_accepted, show empty.version = 0 from rfl,
    BatchCompilation.accepted_of_complete h, BatchCompilation.accepted_of_complete h]

end Catalog

/-! ## Values -/

section

variable {bag : ParameterBag} {rules : List CompiledRule}

/-- The values of rules are found one after the other. -/
theorem outcome_evaluateRules :
    (evaluateRules rules bag).outcome =
      (rules.mapM fun compiled : CompiledRule => (compiled.evaluate bag).outcome.map fun value =>
        (compiled.id, value)).map Table.ofList := by
  rw [evaluateRules, Metered.outcome_bind, Metered.outcome_mapM]
  have hstep : (fun compiled : CompiledRule =>
      (compiled.evaluate bag >>= fun value => pure (compiled.id, value)).outcome) =
      fun compiled => (compiled.evaluate bag).outcome.map fun value => (compiled.id, value) := by
    funext compiled
    rw [Metered.outcome_bind]
    cases (compiled.evaluate bag).outcome <;> rfl
  rw [hstep]
  cases rules.mapM fun compiled : CompiledRule =>
    (compiled.evaluate bag).outcome.map fun value => (compiled.id, value) <;> rfl

/-- Rules have no values for the first one that has none. -/
theorem evaluateRules_eq_error_iff {error : RuleError} :
    (evaluateRules rules bag).outcome = .error error ↔
      ∃ before compiled after, rules = before ++ compiled :: after ∧
        (∀ one ∈ before, ∃ value, (one.evaluate bag).outcome = .ok value) ∧
        (compiled.evaluate bag).outcome = .error error := by
  have hnamed : ∀ compiled : CompiledRule,
      (∃ result, ((compiled.evaluate bag).outcome.map fun value => (compiled.id, value)) =
        .ok result) ↔ ∃ value, (compiled.evaluate bag).outcome = .ok value := by
    intro compiled
    cases (compiled.evaluate bag).outcome <;> simp [Except.map]
  rw [outcome_evaluateRules, map_eq_error_iff, mapM_eq_error_iff]
  simp only [hnamed, map_eq_error_iff]

/-- Rules of different ids have their values under their ids. -/
theorem evaluateRules_eq_ok (hdistinct : (rules.map CompiledRule.id).Nodup)
    {values : Table Decimal} (h : (evaluateRules rules bag).outcome = .ok values) :
    values.names = rules.map CompiledRule.id ∧
      ∀ id value, values.get? id = some value ↔
        ∃ compiled ∈ rules, compiled.id = id ∧ (compiled.evaluate bag).outcome = .ok value := by
  rw [outcome_evaluateRules, map_eq_ok_iff] at h
  obtain ⟨entries, hentries, rfl⟩ := h
  rw [mapM_eq_ok_iff] at hentries
  simp only [map_eq_ok_iff] at hentries
  have hnames : entries.map Prod.fst = rules.map CompiledRule.id := by
    clear hdistinct
    induction hentries with
    | nil => rfl
    | cons hfirst hothers ih =>
      obtain ⟨value, -, rfl⟩ := hfirst
      rw [List.map_cons, List.map_cons, ih]
  have hofList : (Table.ofList entries).entries = entries :=
    Table.entries_ofList (hnames ▸ hdistinct)
  refine ⟨by rw [Table.names, hofList, hnames], ?_⟩
  intro id value
  rw [Table.get?_eq_some_iff, hofList]
  constructor
  · intro hmem
    obtain ⟨compiled, hcompiled, found, hfound, hentry⟩ :=
      exists_mem_of_forall₂ hentries.flip hmem
    cases hentry
    exact ⟨compiled, hcompiled, rfl, hfound⟩
  · rintro ⟨compiled, hcompiled, rfl, hvalue⟩
    obtain ⟨entry, hentry, found, hfound, rfl⟩ := exists_mem_of_forall₂ hentries hcompiled
    rw [hvalue] at hfound
    cases hfound
    exact hentry

end

/-! ## Agreement -/

variable {settings : EngineSettings} {rules : List Rule} {bag : ParameterBag}

theorem evaluateGiven_of_accepted {compiled : List CompiledRule}
    (h : (compileBatch [] 0 rules).accepted settings.invalidRulePolicy = .ok compiled) :
    evaluateGiven settings rules bag = evaluateRules compiled bag := by
  rw [evaluateGiven, compileGiven_eq_accepted _ (fun _ => rfl), h]
  rfl

theorem evaluateGiven_of_not_accepted {error : RuleError}
    (h : (compileBatch [] 0 rules).accepted settings.invalidRulePolicy = .error error) :
    evaluateGiven settings rules bag = ⟨.error error, []⟩ := by
  rw [evaluateGiven, compileGiven_eq_accepted _ (fun _ => rfl), h]
  rfl

/-- The values of rules are those of the catalog that holds them, under the same ids. -/
theorem exists_values_of_catalog {catalog : Catalog} (hsound : catalog.Sound)
    (h : ∀ compiled ∈ catalog.compiledRules, ∃ value, (compiled.evaluate bag).outcome = .ok value) :
    ∃ values, (evaluateRules catalog.compiledRules bag).outcome = .ok values ∧
      values.names = catalog.compiledRules.map CompiledRule.id ∧
      ∀ id value, values.get? id = some value ↔
        ∃ compiled, catalog.get? id = some compiled ∧
          (compiled.evaluate bag).outcome = .ok value := by
  cases hvalues : (evaluateRules catalog.compiledRules bag).outcome with
  | error error =>
    obtain ⟨before, compiled, after, hsplit, -, herror⟩ := evaluateRules_eq_error_iff.mp hvalues
    obtain ⟨value, hvalue⟩ := h compiled (by simp [hsplit])
    rw [herror] at hvalue
    cases hvalue
  | ok values =>
    obtain ⟨hnames, hget⟩ := evaluateRules_eq_ok hsound.nodup_ids hvalues
    refine ⟨values, rfl, hnames, ?_⟩
    intro id value
    simp only [hget, hsound.get?_eq_some_iff, and_assoc]

/-- To skip what is invalid is to leave it out beforehand. -/
theorem evaluateGiven_skip (settings : EngineSettings) (rules : List Rule) (bag : ParameterBag) :
    evaluateGiven { settings with invalidRulePolicy := .skip } rules bag =
      evaluateGiven { settings with invalidRulePolicy := .abort }
        ((firstOfEachId rules).filter Rule.isCompilable) bag := by
  have hcleaned := compileBatch_cleaned (List.nil_subset []) 0 rules
  rw [filter_unseen_nil] at hcleaned
  rw [evaluateGiven_of_accepted (BatchCompilation.accepted_skip _),
    evaluateGiven_of_accepted (BatchCompilation.accepted_of_complete (by rw [hcleaned])), hcleaned]

/-- Where nothing is invalid, the policy does not matter. -/
theorem evaluateGiven_of_complete (settings : EngineSettings) {rules : List Rule}
    (bag : ParameterBag) (h : (compileBatch [] 0 rules).failed = []) :
    evaluateGiven { settings with invalidRulePolicy := .skip } rules bag =
      evaluateGiven { settings with invalidRulePolicy := .abort } rules bag := by
  rw [evaluateGiven_of_accepted (BatchCompilation.accepted_of_complete h),
    evaluateGiven_of_accepted (BatchCompilation.accepted_of_complete h)]

/-- **Rules at hand agree with the empty catalog.** They are accepted as a list that is loaded into
the empty catalog under the same policy: where that is refused, they are too, with the same error
and without an evaluation. Otherwise they are the rules that the catalog then holds, in the order of
the list. If all of these have values, the values stand under exactly the ids that were loaded, each
one that of the rule in the catalog; if not, the first one without a value decides, with its error.
To skip what is invalid is the same as to leave it out beforehand, and where nothing is invalid the
policy does not matter. -/
theorem evaluateGiven_agrees_with_catalog (settings : EngineSettings) (rules : List Rule)
    (bag : ParameterBag) :
    let policy := settings.invalidRulePolicy
    let loading := Catalog.empty.loadBatch policy rules
    let given := evaluateGiven settings rules bag
    (∀ error, loading.1 = .error error → given = ⟨.error error, []⟩) ∧
    (∀ report, loading.1 = .ok report →
      let accepted := loading.2.compiledRules
      compileGiven policy [] 0 rules = .ok accepted ∧
      accepted.map CompiledRule.id = report.loaded ∧
      accepted.map CompiledRule.rule = (firstOfEachId rules).filter Rule.isCompilable ∧
      ((∀ compiled ∈ accepted, ∃ value, (compiled.evaluate bag).outcome = .ok value) →
        ∃ values, given.outcome = .ok values ∧ values.names = report.loaded ∧
          ∀ id value, values.get? id = some value ↔
            ∃ compiled, loading.2.get? id = some compiled ∧
              (compiled.evaluate bag).outcome = .ok value) ∧
      ∀ error, given.outcome = .error error ↔
        ∃ before compiled after, accepted = before ++ compiled :: after ∧
          (∀ one ∈ before, ∃ value, (one.evaluate bag).outcome = .ok value) ∧
          (compiled.evaluate bag).outcome = .error error) ∧
    evaluateGiven { settings with invalidRulePolicy := .skip } rules bag =
      evaluateGiven { settings with invalidRulePolicy := .abort }
        ((firstOfEachId rules).filter Rule.isCompilable) bag ∧
    ∀ report, (Catalog.empty.loadBatch .skip rules).1 = .ok report → report.failed = [] →
      Catalog.empty.loadBatch .skip rules = Catalog.empty.loadBatch .abort rules ∧
      evaluateGiven { settings with invalidRulePolicy := .skip } rules bag =
        evaluateGiven { settings with invalidRulePolicy := .abort } rules bag := by
  intro policy loading given
  refine ⟨?_, ?_, ?_, ?_⟩
  · intro error herror
    rw [show loading.1 = _ from Catalog.fst_loadBatch_empty, map_eq_error_iff] at herror
    exact evaluateGiven_of_not_accepted herror
  · intro report hreport accepted
    rw [show loading.1 = _ from Catalog.fst_loadBatch_empty, map_eq_ok_iff] at hreport
    obtain ⟨compiled, hcompiled, rfl⟩ := hreport
    have hstored : accepted = compiled := Catalog.compiledRules_loadBatch_empty hcompiled
    have hgiven : given = evaluateRules accepted bag := by
      rw [hstored]
      exact evaluateGiven_of_accepted hcompiled
    have hreachable : loading.2.Reachable := ⟨[.loadBatch policy rules], rfl⟩
    refine ⟨?_, by rw [hstored], ?_, ?_, ?_⟩
    · rw [compileGiven_eq_accepted policy (fun _ => rfl), hcompiled, hstored]
    · have hrules := (compileBatch_spec [] 0 rules).2.1
      rw [filter_unseen_nil] at hrules
      rw [hstored, BatchCompilation.compiled_of_accepted hcompiled, hrules]
    · intro hvalues
      rw [hgiven, ← hstored]
      exact exists_values_of_catalog hreachable.sound hvalues
    · intro error
      rw [hgiven]
      exact evaluateRules_eq_error_iff
  · exact evaluateGiven_skip settings rules bag
  · intro report hreport hcomplete
    rw [Catalog.fst_loadBatch_empty, map_eq_ok_iff] at hreport
    obtain ⟨compiled, -, rfl⟩ := hreport
    exact ⟨Catalog.loadBatch_empty_of_complete hcomplete,
      evaluateGiven_of_complete settings bag hcomplete⟩

/-- A fee, a second rule of its id, and a levy that cannot be read. -/
def feesAtHand : List Rule :=
  [Catalog.plainRule "fee" "DE" "1" none, Catalog.plainRule "fee" "DE" "2" none,
    Catalog.plainRule "levy" "DE" "1 +" none]

/-- Of these the first one is accepted, or else the second one is the reason to refuse them. -/
theorem evaluateGiven_agrees_with_catalog_fees :
    (∃ values,
      (evaluateGiven { invalidRulePolicy := .skip } feesAtHand .empty).outcome = .ok values ∧
      values.names = ["fee"] ∧ values.get? "fee" = some Decimal.one) ∧
    evaluateGiven { invalidRulePolicy := .abort } feesAtHand .empty =
      ⟨.error (.invalidRule "fee" .repeatedId), []⟩ := by
  refine ⟨?_, ?_⟩
  · obtain ⟨-, haccepted, -⟩ :=
      evaluateGiven_agrees_with_catalog { invalidRulePolicy := .skip } feesAtHand .empty
    let loading := Catalog.empty.loadBatch .skip feesAtHand
    have hloaded : loading.1.toOption.map BatchReport.loaded = some ["fee"] := by decide +kernel
    obtain ⟨report, hreport, hids⟩ := exists_of_toOption_map hloaded
    obtain ⟨-, -, -, hvalues, -⟩ := haccepted report hreport
    have hevaluated : ∀ compiled ∈ loading.2.compiledRules,
        (compiled.evaluate .empty).outcome.isOk = true := by
      decide +kernel
    obtain ⟨values, hvalues, hnames, hget⟩ :=
      hvalues fun compiled hcompiled => exists_ok_iff_isOk.mpr (hevaluated compiled hcompiled)
    have hfee : (loading.2.get? "fee").map (fun one => (one.evaluate .empty).outcome) =
        some (.ok Decimal.one) := by
      decide +kernel
    obtain ⟨fee, hfee, hvalue⟩ := Option.map_eq_some_iff.mp hfee
    exact ⟨values, hvalues, by rw [hnames, hids], (hget _ _).mpr ⟨fee, hfee, hvalue⟩⟩
  · obtain ⟨hrefused, -⟩ :=
      evaluateGiven_agrees_with_catalog { invalidRulePolicy := .abort } feesAtHand .empty
    refine hrefused _ ?_
    have herror : (Catalog.empty.loadBatch .abort feesAtHand).1.map BatchReport.loaded =
        .error (.invalidRule "fee" .repeatedId) := by
      decide +kernel
    exact map_eq_error_iff.mp herror

end Tariff
