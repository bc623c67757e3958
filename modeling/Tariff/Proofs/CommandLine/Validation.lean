/-
# Validation and estimates

The validation of a file of rules and an estimate from it go by the same list of compilations. So
the report of the validation tells what an estimate will do: where it lists no failure, all rules
are loaded, and an estimate can fail only for its parameters and its arithmetic; where it lists
failures, an estimate stops at the first of them or goes by the other rules, depending on the
policy.

* `estimate_error_cases` : why an estimate fails, once its parameters are read;
* `validateFile_eq`, `loadRules_eq` : validation and loading by the compilations of the rules;
* `loadRules_of_complete`, `loadRules_abort`, `loadRules_skip` : what is loaded under a policy;
* `loadRules_skip_eq` : to skip rules is to leave them out of the file;
* `estimateFiles_error_cases` : why an estimate from files fails, once its rules are loaded;
* `validation_predicts_estimate` : the report against estimates.
-/
import Tariff.CommandLine.Program
import Tariff.Proofs.Estimate.Countries
import Tariff.Proofs.Estimate.Given

namespace Tariff

/-! ## Failures of estimates -/

/-- An error of evaluation: a parameter is missing or counts as no number, or the arithmetic
fails. -/
def RuleError.IsEvaluation : RuleError → Prop
  | .parameterMissing _ | .notNumeric _ _ | .arithmetic _ => True
  | _ => False

/-- Why rules cannot be added up in any currency: none is asked for that has the form of one, a
condition or an expression has no value, or a sum overflows. -/
inductive EstimateFault (rules : List CompiledRule) (bag : ParameterBag) : RuleError → Prop where
  | currency (value : String) : EstimateFault rules bag (.invalidCurrency value)
  | rule {compiled : CompiledRule} {error : RuleError} (hmem : compiled ∈ rules)
      (hblames : compiled.Blames bag error) (hroot : error.rootCause.IsEvaluation) :
      EstimateFault rules bag error
  | overflow (left right : Decimal) :
      EstimateFault rules bag (.arithmetic (.amountOverflow left right))

/-- Beneath an error that tells a rule is one of evaluation. -/
theorem CompiledRule.Blames.rootCause {compiled : CompiledRule} {bag : ParameterBag}
    {error : RuleError} (h : compiled.Blames bag error) : error.rootCause.IsEvaluation := by
  have hcause : ∀ {names : List String} {cause : RuleError},
      EvaluationFault (compiled.source bag) names cause → cause.rootCause.IsEvaluation := by
    intro names cause h
    cases h <;> trivial
  cases h with
  | condition _ _ h =>
    rw [RuleError.rootCause]
    exact hcause h
  | expression _ h =>
    rw [RuleError.rootCause]
    exact hcause h

namespace Catalog

variable {catalog : Catalog} {settings : EngineSettings} {bag : ParameterBag} {date : Date}
variable {countries : List String} {error : RuleError}

/-- **An estimate fails for its currency, for a rule or for a sum.** -/
theorem estimate_error_cases (hsound : catalog.Sound)
    (h : (catalog.estimate settings bag date countries).outcome = .error error) :
    EstimateFault catalog.compiledRules bag error := by
  cases hcurrency : currencyOf settings bag with
  | error cause =>
    rw [estimate_of_currencyOf_error hcurrency] at h
    cases h
    obtain ⟨value, rfl⟩ := exists_of_currencyOf_error hcurrency
    exact .currency value
  | ok currency =>
    rw [estimate_eq_error_iff hcurrency] at h
    obtain ⟨before, country, after, breakdowns, sum, -, -, -, h⟩ := h
    rcases h with hbreakdown | ⟨breakdown, -, -, rfl⟩
    · rw [breakdown_eq_error_iff, tallyRules_eq_error_iff hcurrency] at hbreakdown
      have hrules : ∀ compiled ∈ catalog.applicable ⟨country, none, date⟩,
          compiled ∈ catalog.compiledRules := fun compiled hmem => (mem_applicable.mp hmem).1
      rcases hbreakdown.cases fun compiled hmem => hsound.faithful compiled (hrules compiled hmem)
        with ⟨compiled, hmem, hblames⟩ | ⟨left, right, rfl⟩
      · exact .rule (hrules compiled hmem) hblames hblames.rootCause
      · exact .overflow left right
    · exact .overflow sum breakdown.total.amount

end Catalog

/-! ## Files of rules -/

section

variable {files : Files} {path text : String} {rules : List Rule}

theorem Catalog.loadBatchText_of_listOfText (hrules : Rule.listOfText text = .ok rules)
    (catalog : Catalog) (policy : InvalidRulePolicy) :
    catalog.loadBatchText policy text = catalog.loadBatch policy rules := by
  unfold loadBatchText
  rw [hrules]

/-- A file is validated by the compilations of its rules. -/
theorem validateFile_eq (hfile : files path = some text)
    (hrules : Rule.listOfText text = .ok rules) :
    validateFile files path = .ok ⟨(compileBatch [] 0 rules).compiled.map CompiledRule.id,
      (compileBatch [] 0 rules).failed⟩ := by
  have hreport : (Catalog.empty.loadBatchText .skip text).1 =
      .ok ⟨(compileBatch [] 0 rules).compiled.map CompiledRule.id,
        (compileBatch [] 0 rules).failed⟩ := by
    rw [Catalog.loadBatchText_of_listOfText hrules, Catalog.fst_loadBatch_empty,
      BatchCompilation.accepted_skip]
    rfl
  unfold validateFile readFile
  rw [hfile]
  show ((Catalog.empty.loadBatchText .skip text).1.mapError _ >>= fun report => _) = _
  rw [hreport]
  rfl

/-- A file is loaded by the compilations of its rules, if they are accepted. -/
theorem loadRules_eq (hfile : files path = some text) (hrules : Rule.listOfText text = .ok rules)
    (policy : InvalidRulePolicy) :
    loadRules files policy path =
      (((compileBatch [] 0 rules).accepted policy).mapError (.rulesNotLoaded path)).map
        fun compiled => compiled.foldl Catalog.put ⟨.empty, (compileBatch [] 0 rules).version⟩ := by
  unfold loadRules readFile
  rw [hfile]
  show ((Catalog.empty.loadBatchText policy text).1.mapError (CommandFault.rulesNotLoaded path) >>=
    fun _ => pure (Catalog.empty.loadBatchText policy text).2) = _
  rw [Catalog.loadBatchText_of_listOfText hrules, Catalog.loadBatch_eq_accepted,
    show Catalog.empty.version = 0 from rfl]
  cases (compileBatch [] 0 rules).accepted policy <;> rfl

/-- The catalog of the rules that were compiled. -/
def BatchCompilation.catalog (batch : BatchCompilation) : Catalog :=
  batch.compiled.foldl Catalog.put ⟨.empty, batch.version⟩

/-- Under the policy to skip, the rules that can be compiled are loaded. -/
theorem loadRules_skip (hfile : files path = some text)
    (hrules : Rule.listOfText text = .ok rules) :
    loadRules files .skip path = .ok (compileBatch [] 0 rules).catalog := by
  rw [loadRules_eq hfile hrules, BatchCompilation.accepted_skip]
  rfl

/-- If all rules can be compiled, they are loaded under either policy. -/
theorem loadRules_of_complete (hfile : files path = some text)
    (hrules : Rule.listOfText text = .ok rules) (h : (compileBatch [] 0 rules).failed = [])
    (policy : InvalidRulePolicy) :
    loadRules files policy path = .ok (compileBatch [] 0 rules).catalog := by
  rw [loadRules_eq hfile hrules, BatchCompilation.accepted_of_complete h]
  rfl

/-- Under the policy to abort, the first rule that cannot be compiled is a reason to load none. -/
theorem loadRules_abort {id : String} {error : RuleError} {others : List (String × RuleError)}
    (hfile : files path = some text) (hrules : Rule.listOfText text = .ok rules)
    (h : (compileBatch [] 0 rules).failed = (id, error) :: others) :
    loadRules files .abort path = .error (.rulesNotLoaded path error) := by
  rw [loadRules_eq hfile hrules]
  unfold BatchCompilation.accepted
  rw [h]
  rfl

/-- To skip the rules that are not loaded is to leave them out of the file. -/
theorem loadRules_skip_eq {other listed : String} (hfile : files path = some text)
    (hrules : Rule.listOfText text = .ok rules) (hother : files other = some listed)
    (hlisted : Rule.listOfText listed =
      .ok ((compileBatch [] 0 rules).compiled.map CompiledRule.rule)) (policy : InvalidRulePolicy) :
    loadRules files .skip path = loadRules files policy other := by
  have hcleaned := compileBatch_cleaned (List.nil_subset []) 0 rules
  rw [← (compileBatch_spec [] 0 rules).2.1] at hcleaned
  rw [loadRules_eq hfile hrules, loadRules_eq hother hlisted, hcleaned,
    BatchCompilation.accepted_skip, BatchCompilation.accepted_of_complete rfl]
  rfl

/-- The rules that are loaded from a file are those that were compiled. -/
theorem compiledRules_of_loadRules {catalog : Catalog} {policy : InvalidRulePolicy}
    (hfile : files path = some text) (hrules : Rule.listOfText text = .ok rules)
    (h : loadRules files policy path = .ok catalog) :
    catalog.compiledRules = (compileBatch [] 0 rules).compiled := by
  rw [loadRules_eq hfile hrules, map_eq_ok_iff] at h
  obtain ⟨compiled, haccepted, rfl⟩ := h
  rw [BatchCompilation.compiled_of_accepted (mapError_eq_ok_iff.mp haccepted)]
  exact Catalog.compiledRules_foldl_put (Catalog.nodup_compileBatch 0 rules) _

/-- A catalog that is loaded from a file is sound. -/
theorem sound_of_loadRules {catalog : Catalog} {policy : InvalidRulePolicy}
    (h : loadRules files policy path = .ok catalog) : catalog.Sound := by
  unfold loadRules at h
  obtain ⟨text, -, h⟩ := bind_eq_ok_iff.mp h
  obtain ⟨report, -, h⟩ := bind_eq_ok_iff.mp h
  cases h
  exact Catalog.Reachable.sound ⟨[.loadBatchText policy text], rfl⟩

end

/-! ## Estimates from files -/

section

variable {files : Files} {settings : EngineSettings} {path parameters : String}
variable {countries : List String} {date : Date}

/-- Without rules there is no estimate, whatever the parameters are. -/
theorem estimateFiles_of_loadRules_error {fault : CommandFault}
    (h : loadRules files settings.invalidRulePolicy path = .error fault) :
    estimateFiles files settings path parameters countries date = (.error fault, []) := by
  unfold estimateFiles
  rw [h]
  rfl

/-- With rules an estimate goes by the parameters. -/
theorem estimateFiles_of_loadRules {catalog : Catalog}
    (h : loadRules files settings.invalidRulePolicy path = .ok catalog) :
    estimateFiles files settings path parameters countries date =
      match readParameters files parameters with
      | .ok bag =>
        let estimate := catalog.estimate settings bag date countries
        (estimate.outcome.mapError .calculation, estimate.events)
      | .error fault => (.error fault, []) := by
  unfold estimateFiles
  rw [h]
  cases readParameters files parameters <;> rfl

/-- Why there is no estimate though there are rules: the file of the parameters cannot be read or
holds no parameters, or the calculation fails. -/
inductive FileFault (files : Files) (parameters : String) (rules : List CompiledRule) :
    CommandFault → Prop where
  | unreadable (hnone : files parameters = none) :
      FileFault files parameters rules (.unreadableFile parameters)
  | notRead {text : String} {cause : RuleError} (hfile : files parameters = some text)
      (hcause : ParameterBag.ofText text = .error cause) :
      FileFault files parameters rules (.parametersNotRead parameters cause)
  | calculation {text : String} {bag : ParameterBag} {cause : RuleError}
      (hfile : files parameters = some text) (hbag : ParameterBag.ofText text = .ok bag)
      (hcause : EstimateFault rules bag cause) :
      FileFault files parameters rules (.calculation cause)

/-- **An estimate from loaded rules fails for its parameters or in its calculation.** -/
theorem estimateFiles_error_cases {catalog : Catalog} {fault : CommandFault}
    (h : loadRules files settings.invalidRulePolicy path = .ok catalog)
    (herror : (estimateFiles files settings path parameters countries date).1 = .error fault) :
    FileFault files parameters catalog.compiledRules fault := by
  rw [estimateFiles_of_loadRules h] at herror
  cases hfile : files parameters with
  | none =>
    have hread : readParameters files parameters = .error (.unreadableFile parameters) := by
      rw [readParameters, readFile, hfile]
      rfl
    rw [hread] at herror
    cases herror
    exact .unreadable hfile
  | some text =>
    have hread : readParameters files parameters =
        (ParameterBag.ofText text).mapError (.parametersNotRead parameters) := by
      rw [readParameters, readFile, hfile]
      rfl
    rw [hread] at herror
    cases hbag : ParameterBag.ofText text with
    | error cause =>
      rw [hbag] at herror
      cases herror
      exact .notRead hfile hbag
    | ok bag =>
      rw [hbag] at herror
      obtain ⟨cause, hcause, rfl⟩ := mapError_eq_error_iff.mp herror
      exact .calculation hfile hbag (Catalog.estimate_error_cases (sound_of_loadRules h) hcause)

end

/-! ## Validation -/

/-- A command that validates a file ends well when no rule fails. -/
theorem exitCode_validate {files : Files} {path : String} {report : ValidationReport}
    (h : validateFile files path = .ok report) (settings : ServiceSettings) (today : Date) :
    (Command.run settings files today (.validate path)).exitCode =
      if report.invalid = [] then 0 else 1 := by
  simp only [Command.run, h]
  obtain ⟨valid, _ | ⟨failure, failures⟩⟩ := report
  · rfl
  · rfl

open Catalog (loadInTurn loadedRules failures)

/-- Where no rule fails, all are loaded, in their order. -/
theorem loadedRules_of_failures_eq_nil {turns : List (Rule × Except RuleError Unit)}
    (h : failures turns = []) : loadedRules turns = turns.map Prod.fst := by
  induction turns with
  | nil => rfl
  | cons turn turns ih =>
    obtain ⟨rule, error | ⟨⟩⟩ := turn
    · rw [Catalog.failures_cons_error] at h
      cases h
    · rw [Catalog.failures_cons_ok] at h
      rw [Catalog.loadedRules_cons_ok, ih h, List.map_cons]

/-- **Validation predicts estimates.** Let a file hold a list of rules. Its validation tells for
each rule, in the order of the file, whether it can be loaded. If all can, the program ends well,
and an estimate loads all rules under either policy; then it fails only if the parameters cannot be
read, if no currency is asked for, if a formula has no value, or if a sum overflows. If some cannot,
an estimate fails with the first of the failures under the policy to abort, whatever the parameters
are. Under the policy to skip it loads exactly the rules that can be loaded, and gives what it gives
for a file that holds no others. -/
theorem validation_predicts_estimate {files : Files} {path text : String} {rules : List Rule}
    (hfile : files path = some text) (hrules : Rule.listOfText text = .ok rules) :
    let turns := loadInTurn [] .empty rules
    ∃ report, validateFile files path = .ok report ∧
      turns.map Prod.fst = rules ∧ report.valid = (loadedRules turns).map Rule.id ∧
      report.invalid = failures turns ∧
      report.valid.length + report.invalid.length = rules.length ∧
      (∀ settings today, (Command.run settings files today (.validate path)).exitCode =
        if report.invalid = [] then 0 else 1) ∧
      (report.invalid = [] → ∃ catalog, catalog.compiledRules.map CompiledRule.rule = rules ∧
        (∀ policy, loadRules files policy path = .ok catalog) ∧
        ∀ settings parameters countries date fault,
          (estimateFiles files settings path parameters countries date).1 = .error fault →
            FileFault files parameters catalog.compiledRules fault) ∧
      (∀ id error others, report.invalid = (id, error) :: others →
        ∀ (settings : EngineSettings) (parameters : String) (countries : List String) (date : Date),
          settings.invalidRulePolicy = .abort →
            estimateFiles files settings path parameters countries date =
              (.error (.rulesNotLoaded path error), [])) ∧
      ∃ catalog, catalog.compiledRules.map CompiledRule.rule = loadedRules turns ∧
        loadRules files .skip path = .ok catalog ∧
        ∀ other listed, files other = some listed →
          Rule.listOfText listed = .ok (loadedRules turns) →
          (∀ policy, loadRules files policy other = .ok catalog) ∧
          ∀ (settings : EngineSettings) parameters countries date,
            estimateFiles files { settings with invalidRulePolicy := .skip } path parameters
                countries date =
              estimateFiles files { settings with invalidRulePolicy := .abort } other parameters
                countries date := by
  intro turns
  have hreport := validateFile_eq hfile hrules
  have hloaded : loadedRules turns = (compileBatch [] 0 rules).compiled.map CompiledRule.rule :=
    Catalog.loadedRules_loadInTurn [] .empty rules
  have hfailed : failures turns = (compileBatch [] 0 rules).failed :=
    Catalog.failures_loadInTurn [] .empty rules
  have hturns : turns.map Prod.fst = rules := Catalog.map_fst_loadInTurn [] .empty rules
  have hvalid : (compileBatch [] 0 rules).compiled.map CompiledRule.id =
      (loadedRules turns).map Rule.id := by
    rw [hloaded, List.map_map]
    rfl
  have hlength : (loadedRules turns).length + (failures turns).length = rules.length := by
    rw [Catalog.length_loadedRules_add_length_failures, ← hturns, List.length_map]
  refine ⟨_, hreport, hturns, hvalid, hfailed.symm, ?_, exitCode_validate hreport, ?_, ?_, ?_⟩
  · rw [hvalid, List.length_map, ← hfailed, hlength]
  · intro hcomplete
    have hload := loadRules_of_complete hfile hrules hcomplete
    refine ⟨_, ?_, hload, ?_⟩
    · rw [compiledRules_of_loadRules hfile hrules (hload .skip), ← hloaded,
        loadedRules_of_failures_eq_nil (hfailed.trans hcomplete), hturns]
    · intro settings parameters countries date fault
      exact estimateFiles_error_cases (hload _)
  · intro id error others hfirst settings parameters countries date hpolicy
    apply estimateFiles_of_loadRules_error
    rw [hpolicy]
    exact loadRules_abort hfile hrules hfirst
  · have hload := loadRules_skip hfile hrules
    refine ⟨_, ?_, hload, ?_⟩
    · rw [compiledRules_of_loadRules hfile hrules hload, hloaded]
    · intro other listed hother hlisted
      rw [hloaded] at hlisted
      have hsame := loadRules_skip_eq hfile hrules hother hlisted
      have hloads : ∀ policy, loadRules files policy other = .ok _ :=
        fun policy => (hsame policy).symm.trans hload
      refine ⟨hloads, ?_⟩
      intro settings parameters countries date
      rw [estimateFiles_of_loadRules hload, estimateFiles_of_loadRules (hloads _)]
      rfl

/-- Of a fee and a second rule of its id, the fee is loaded, unless the repeated id is a reason to
load none. -/
theorem validation_predicts_estimate_fees :
    let text := "[\x7b\"id\":\"fee\",\"country_code\":\"DE\",\"rule_type\":\"base_fee\"," ++
      "\"expression\":\"1\",\"effective_from\":\"2023-01-01\"\x7d," ++
      "\x7b\"id\":\"fee\",\"country_code\":\"FR\",\"rule_type\":\"base_fee\"," ++
      "\"expression\":\"2\",\"effective_from\":\"2023-01-01\"\x7d]"
    let files : Files := fun path => if path = "rules.json" then some text else none
    let date : Date := ⟨2024, 2, 29, by decide⟩
    (∃ report, validateFile files "rules.json" = .ok report ∧ report.valid = ["fee"] ∧
      report.valid.length + report.invalid.length = 2) ∧
    estimateFiles files { invalidRulePolicy := .abort } "rules.json" "parameters.json" ["DE"] date =
      (.error (.rulesNotLoaded "rules.json" (.invalidRule "fee" .repeatedId)), []) ∧
    ∃ catalog, loadRules files .skip "rules.json" = .ok catalog ∧
      catalog.compiledRules.map CompiledRule.id = ["fee"] := by
  intro text files date
  have hread : (Rule.listOfText text).toOption.map (fun rules =>
      (rules.length, (loadedRules (loadInTurn [] .empty rules)).map Rule.id,
        failures (loadInTurn [] .empty rules))) =
      some (2, ["fee"], [("fee", .invalidRule "fee" .repeatedId)]) := by
    decide +kernel
  obtain ⟨rules, hrules, hlists⟩ := exists_of_toOption_map hread
  obtain ⟨htwo, hlists⟩ := Prod.mk.inj hlists
  obtain ⟨hfee, hrepeated⟩ := Prod.mk.inj hlists
  obtain ⟨report, hreport, -, hvalid, hinvalid, hlength, -, -, habort, catalog, hcatalog, hskip,
    -⟩ := validation_predicts_estimate (show files "rules.json" = some text from rfl) hrules
  refine ⟨⟨report, hreport, hvalid.trans hfee, hlength.trans htwo⟩, ?_, catalog, hskip, ?_⟩
  · exact habort "fee" _ [] (hinvalid.trans hrepeated) { invalidRulePolicy := .abort }
      "parameters.json" ["DE"] date rfl
  · calc catalog.compiledRules.map CompiledRule.id
        = (catalog.compiledRules.map CompiledRule.rule).map Rule.id := by
          rw [List.map_map]
          rfl
      _ = ["fee"] := by rw [hcatalog, hfee]

end Tariff
