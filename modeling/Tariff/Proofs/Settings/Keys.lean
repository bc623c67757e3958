/-
# Settings come from the last file that sets them

Each setting stands at a path of its own. What the files leave at the path decides about it, and so
what they give for other keys does not matter: a later file may set one key of a section and leaves
the other ones. A setting that no file sets is the name that was given for it, or else its default.

* `SettingKey.path`, `SettingKey.convert`, `SettingKey.get` : the settings one by one;
* `ofEntries?_eq_some_iff` : settings are read one by one;
* `SettingKey.value_of_last` : the last value that is given counts, and a table with what it is
  merged into;
* `ServiceSettings.load_by_keys` : what is loaded, and when nothing is;
* `ServiceSettings.not_loadsLastValues` : the last values alone do not decide.
-/
import Tariff.Proofs.Settings.Overlay

namespace Tariff

/-- The settings. -/
inductive SettingKey where
  | serviceName
  | environment
  | defaultCurrency
  | invalidRulePolicy
  | traceEnabled
  | reportedName
  | logLevel
  | jsonLogs
  | metricsEnabled
  deriving DecidableEq

namespace SettingKey

/-- All settings. -/
def all : List SettingKey :=
  [serviceName, environment, defaultCurrency, invalidRulePolicy, traceEnabled, reportedName,
    logLevel, jsonLogs, metricsEnabled]

theorem mem_all (key : SettingKey) : key ∈ all := by cases key <;> decide

instance (P : SettingKey → Prop) [DecidablePred P] : Decidable (∀ key, P key) :=
  decidable_of_iff (∀ key ∈ all, P key) ⟨fun h key => h key key.mem_all, fun h key _ => h key⟩

/-- Where a setting is written. -/
def path : SettingKey → List String
  | serviceName => ["service_name"]
  | environment => ["environment"]
  | defaultCurrency => ["engine", "default_currency"]
  | invalidRulePolicy => ["engine", "invalid_rule_policy"]
  | traceEnabled => ["engine", "trace_enabled"]
  | reportedName => ["observability", "service_name"]
  | logLevel => ["observability", "log_level"]
  | jsonLogs => ["observability", "json_logs"]
  | metricsEnabled => ["observability", "metrics_enabled"]

/-- The type of a setting. -/
abbrev type : SettingKey → Type
  | serviceName => String
  | environment => String
  | defaultCurrency => String
  | invalidRulePolicy => InvalidRulePolicy
  | traceEnabled => Bool
  | reportedName => String
  | logLevel => String
  | jsonLogs => Bool
  | metricsEnabled => Bool

instance : (key : SettingKey) → DecidableEq key.type
  | serviceName => inferInstanceAs (DecidableEq String)
  | environment => inferInstanceAs (DecidableEq String)
  | defaultCurrency => inferInstanceAs (DecidableEq String)
  | invalidRulePolicy => inferInstanceAs (DecidableEq InvalidRulePolicy)
  | traceEnabled => inferInstanceAs (DecidableEq Bool)
  | reportedName => inferInstanceAs (DecidableEq String)
  | logLevel => inferInstanceAs (DecidableEq String)
  | jsonLogs => inferInstanceAs (DecidableEq Bool)
  | metricsEnabled => inferInstanceAs (DecidableEq Bool)

/-- What a value counts as for a setting. -/
def convert : (key : SettingKey) → SettingValue → Option key.type
  | serviceName => SettingValue.toText?
  | environment => SettingValue.toText?
  | defaultCurrency => SettingValue.toText?
  | invalidRulePolicy => SettingValue.toPolicy?
  | traceEnabled => SettingValue.toFlag?
  | reportedName => SettingValue.toText?
  | logLevel => SettingValue.toText?
  | jsonLogs => SettingValue.toFlag?
  | metricsEnabled => SettingValue.toFlag?

/-- What a setting is set to. -/
def get : (key : SettingKey) → ServiceSettings → key.type
  | serviceName, settings => settings.serviceName
  | environment, settings => settings.environment
  | defaultCurrency, settings => settings.engine.defaultCurrency
  | invalidRulePolicy, settings => settings.engine.invalidRulePolicy
  | traceEnabled, settings => settings.engine.traceEnabled
  | reportedName, settings => settings.observability.serviceName
  | logLevel, settings => settings.observability.logLevel
  | jsonLogs, settings => settings.observability.jsonLogs
  | metricsEnabled, settings => settings.observability.metricsEnabled

/-- Whether a value that is written for a setting, or its default, is what it is set to. -/
def Reads (key : SettingKey) (written : Option SettingValue) (settings : ServiceSettings) : Prop :=
  settingOr (key.get {}) key.convert written = some (key.get settings)

instance (key : SettingKey) (written : Option SettingValue) (settings : ServiceSettings) :
    Decidable (key.Reads written settings) :=
  inferInstanceAs (Decidable (settingOr (key.get {}) key.convert written = some (key.get settings)))

/-- A value that is written for a setting and cannot be read. -/
def Unreadable (key : SettingKey) (written : Option SettingValue) : Prop :=
  settingOr (key.get {}) key.convert written = none

end SettingKey

/-! ## Settings one by one -/

/-- A section, if there is one, is a table. -/
def IsSection (written : Option SettingValue) : Prop :=
  ∀ value, written = some value → value.isTable = true

/-- The section of the engine is read setting by setting. -/
theorem EngineSettings.settingOr_eq_some_iff {written : Option SettingValue} (h : IsSection written)
    {engine : EngineSettings} :
    settingOr {} ofSection? written = some engine ↔
      settingOr "EUR" SettingValue.toText? ((innerEntries written).lookup "default_currency") =
          some engine.defaultCurrency ∧
        settingOr .abort SettingValue.toPolicy?
            ((innerEntries written).lookup "invalid_rule_policy") =
          some engine.invalidRulePolicy ∧
        settingOr false SettingValue.toFlag? ((innerEntries written).lookup "trace_enabled") =
          some engine.traceEnabled := by
  obtain ⟨currency, policy, traced⟩ := engine
  cases written with
  | none => simp [settingOr, innerEntries]
  | some value =>
    cases value with
    | table entries =>
      show ofSection? (.table entries) = _ ↔ _
      unfold ofSection?
      simp only [SettingValue.isSection, SettingValue.field?, innerEntries, Option.map_some,
        Option.getD_some, SettingValue.entries, Bool.not_true, Bool.false_eq_true, if_false]
      generalize settingOr "EUR" _ _ = first
      generalize settingOr InvalidRulePolicy.abort _ _ = second
      generalize settingOr false _ _ = third
      cases first <;> cases second <;> cases third <;> simp
    | text | integer | float | boolean | list =>
      exact absurd (h _ rfl) (by simp [SettingValue.isTable])

/-- So is the section of observability. -/
theorem ObservabilitySettings.settingOr_eq_some_iff {written : Option SettingValue}
    (h : IsSection written) {observability : ObservabilitySettings} :
    settingOr {} ofSection? written = some observability ↔
      settingOr "vat-rule-engine" SettingValue.toText?
          ((innerEntries written).lookup "service_name") = some observability.serviceName ∧
        settingOr "info" SettingValue.toText? ((innerEntries written).lookup "log_level") =
          some observability.logLevel ∧
        settingOr false SettingValue.toFlag? ((innerEntries written).lookup "json_logs") =
          some observability.jsonLogs ∧
        settingOr true SettingValue.toFlag? ((innerEntries written).lookup "metrics_enabled") =
          some observability.metricsEnabled := by
  obtain ⟨name, level, json, metrics⟩ := observability
  cases written with
  | none => simp [settingOr, innerEntries]
  | some value =>
    cases value with
    | table entries =>
      show ofSection? (.table entries) = _ ↔ _
      unfold ofSection?
      simp only [SettingValue.isSection, SettingValue.field?, innerEntries, Option.map_some,
        Option.getD_some, SettingValue.entries, Bool.not_true, Bool.false_eq_true, if_false]
      generalize settingOr "vat-rule-engine" _ _ = first
      generalize settingOr "info" _ _ = second
      generalize settingOr false _ _ = third
      generalize settingOr true _ _ = fourth
      cases first <;> cases second <;> cases third <;> cases fourth <;> simp
    | text | integer | float | boolean | list =>
      exact absurd (h _ rfl) (by simp [SettingValue.isTable])

namespace ServiceSettings

/-- Settings are read one by one, each from what is found at its path. -/
theorem ofEntries?_eq_some_iff {entries : SettingEntries}
    (hengine : IsSection (entries.lookup "engine"))
    (hobservability : IsSection (entries.lookup "observability")) {settings : ServiceSettings} :
    ofEntries? entries = some settings ↔
      ∀ key : SettingKey, key.Reads (valueAt? entries key.path) settings := by
  obtain ⟨name, environment, engine, observability⟩ := settings
  have hkeys : (∀ key : SettingKey, key.Reads (valueAt? entries key.path)
        ⟨name, environment, engine, observability⟩) ↔
      settingOr "vat-rule-engine" SettingValue.toText? (entries.lookup "service_name") = some name ∧
      settingOr "development" SettingValue.toText? (entries.lookup "environment") =
        some environment ∧
      settingOr {} EngineSettings.ofSection? (entries.lookup "engine") = some engine ∧
      settingOr {} ObservabilitySettings.ofSection? (entries.lookup "observability") =
        some observability := by
    rw [EngineSettings.settingOr_eq_some_iff hengine,
      ObservabilitySettings.settingOr_eq_some_iff hobservability]
    constructor
    · intro h
      exact ⟨h .serviceName, h .environment,
        ⟨h .defaultCurrency, h .invalidRulePolicy, h .traceEnabled⟩,
        h .reportedName, h .logLevel, h .jsonLogs, h .metricsEnabled⟩
    · rintro ⟨hname, henvironment, ⟨hcurrency, hpolicy, htraced⟩,
        hreported, hlevel, hjson, hmetrics⟩
      rintro (_ | _ | _ | _ | _ | _ | _ | _ | _)
      all_goals assumption
  rw [hkeys, ofEntries?]
  dsimp only
  generalize settingOr "vat-rule-engine" _ _ = first
  generalize settingOr "development" _ _ = second
  generalize settingOr ({} : EngineSettings) _ _ = third
  generalize settingOr ({} : ObservabilitySettings) _ _ = fourth
  cases first <;> cases second <;> cases third <;> cases fourth <;> simp

/-- There are no settings exactly if one of them cannot be read. -/
theorem ofEntries?_eq_none_iff {entries : SettingEntries}
    (hengine : IsSection (entries.lookup "engine"))
    (hobservability : IsSection (entries.lookup "observability")) :
    ofEntries? entries = none ↔ ∃ key : SettingKey, key.Unreadable (valueAt? entries key.path) := by
  constructor
  · intro hnone
    by_contra hreadable
    have hvalues : ∀ key : SettingKey, ∃ value : key.type,
        settingOr (key.get {}) key.convert (valueAt? entries key.path) = some value :=
      fun key => Option.ne_none_iff_exists'.mp fun h => hreadable ⟨key, h⟩
    choose value hvalue using hvalues
    have hsome : ofEntries? entries = some {
        serviceName := value .serviceName
        environment := value .environment
        engine := ⟨value .defaultCurrency, value .invalidRulePolicy, value .traceEnabled⟩
        observability :=
          ⟨value .reportedName, value .logLevel, value .jsonLogs, value .metricsEnabled⟩ } := by
      refine (ofEntries?_eq_some_iff hengine hobservability).mpr fun key => ?_
      cases key <;> exact hvalue _
    rw [hnone] at hsome
    contradiction
  · rintro ⟨key, hkey⟩
    cases hsettings : ofEntries? entries with
    | none => rfl
    | some settings =>
      have hreads := (ofEntries?_eq_some_iff hengine hobservability).mp hsettings key
      exact absurd (hkey.symm.trans hreads) nofun

end ServiceSettings

/-! ## Settings in files -/

namespace SettingKey

/-- The name that is passed for a setting, if there is one. -/
def passed (service environment : String) : SettingKey → Option SettingValue
  | serviceName => some (.text service)
  | .environment => some (.text environment)
  | reportedName => some (.text service)
  | _ => none

/-- The values that files give for a setting, in the order of the files. -/
def inFiles (key : SettingKey) (layers : List SettingEntries) : List SettingValue :=
  layers.flatMap fun layer => givenAt (spread layer) key.path

/-- What the files leave for a setting: each value is laid over those before it. -/
def value (key : SettingKey) (service environment : String) (layers : List SettingEntries) :
    Option SettingValue :=
  laid (key.passed service environment) (key.inFiles layers)

/-- The last value that files give for a setting, or the name that is passed for it. -/
def lastGiven (key : SettingKey) (service environment : String) (layers : List SettingEntries) :
    Option SettingValue :=
  (key.inFiles layers).getLast?.or (key.passed service environment)

variable {key : SettingKey} {service environment : String} {layers : List SettingEntries}

/-- A setting that no file gives is the name that was passed, if one was. -/
theorem value_of_none (h : key.inFiles layers = []) :
    key.value service environment layers = key.passed service environment := by
  rw [value, h]
  rfl

/-- The last value takes the place of what was there before. If it is a table, it takes up the
entries of the table that was there. -/
theorem value_of_last {before : List SettingValue} {last : SettingValue}
    (h : key.inFiles layers = before ++ [last]) :
    (last.isTable = false → key.value service environment layers = some last) ∧
      ∀ entries, last = .table entries → key.value service environment layers =
        some (.table (overlay (innerEntries (laid (key.passed service environment) before))
          entries)) := by
  have hlast : key.value service environment layers =
      some (last.over (laid (key.passed service environment) before)) := by
    rw [value, h, laid, List.foldl_append]
    rfl
  constructor
  · intro htable
    rw [hlast, SettingValue.over_of_not_table htable]
  · rintro entries rfl
    rw [hlast, SettingValue.over]

/-- The first keys of the paths of settings. -/
def roots : List String := ["service_name", "environment", "engine", "observability"]

/-- The first keys of the paths of settings that stand in sections. -/
def sections : List String := ["engine", "observability"]

theorem mem_roots_of_mem_sections {root : String} (h : root ∈ sections) : root ∈ roots := by
  simp only [sections, roots, List.mem_cons, List.not_mem_nil, or_false] at h ⊢
  exact Or.inr (Or.inr h)

end SettingKey

/-- A layer that gives nothing for any setting. -/
def IsUnrelated (layer : SettingEntries) : Prop :=
  ∀ root ∈ SettingKey.roots, given (spread layer) root = []

/-- A layer whose sections are tables. -/
def HasSections (layer : SettingEntries) : Prop :=
  ∀ root ∈ SettingKey.sections, ∀ value ∈ given (spread layer) root, value.isTable = true

instance (layer : SettingEntries) : Decidable (IsUnrelated layer) :=
  inferInstanceAs (Decidable (∀ root ∈ SettingKey.roots, given (spread layer) root = []))

instance (layer : SettingEntries) : Decidable (HasSections layer) :=
  inferInstanceAs (Decidable (∀ root ∈ SettingKey.sections,
    ∀ value ∈ given (spread layer) root, value.isTable = true))

/-- Layers in a row give for a path what each of them gives. -/
theorem givenAt_flatMap (layers : List SettingEntries) (path : List String) :
    givenAt (layers.flatMap spread) path =
      layers.flatMap fun layer => givenAt (spread layer) path := by
  induction layers with
  | nil =>
    show givenAt [] path = []
    induction path with
    | nil => rfl
    | cons key path ih =>
      cases path with
      | nil => rfl
      | cons next path => exact ih
  | cons layer layers ih =>
    rw [List.flatMap_cons, List.flatMap_cons, givenAt_append, ih]

/-! ## Layers that say nothing -/

section Unrelated

variable {layer : SettingEntries}

/-- A layer that gives nothing for any setting leaves the first keys of their paths. -/
theorem lookup_overlay_of_unrelated (h : IsUnrelated layer) (base : SettingEntries) {root : String}
    (hroot : root ∈ SettingKey.roots) :
    (overlay base (spread layer)).lookup root = base.lookup root := by
  rw [lookup_overlay, h root hroot]
  rfl

/-- A layer that gives nothing for any setting leaves all of them. -/
theorem valueAt?_overlay_of_unrelated (h : IsUnrelated layer) (base : SettingEntries)
    (key : SettingKey) :
    valueAt? (overlay base (spread layer)) key.path = valueAt? base key.path := by
  cases key
  case serviceName | environment => exact lookup_overlay_of_unrelated h base (by decide)
  all_goals
    rw [SettingKey.path, valueAt?_cons_cons, valueAt?_cons_cons,
      lookup_overlay_of_unrelated h base (by decide)]

end Unrelated

/-! ## What files leave -/

/-- What the files leave over the names that are passed. -/
def writtenEntries (service environment : String) (layers : List SettingEntries) : SettingEntries :=
  overlay (nameLayer service environment) (layers.flatMap spread)

section Written

variable {layers : List SettingEntries}

/-- Layers whose sections are tables give nothing but tables for a section. -/
theorem isTable_of_sections (h : ∀ layer ∈ layers, HasSections layer) {root : String}
    (hroot : root ∈ SettingKey.sections) :
    ∀ value ∈ given (layers.flatMap spread) root, value.isTable = true := by
  intro value hvalue
  have hflat : given (layers.flatMap spread) root =
      layers.flatMap fun layer => given (spread layer) root :=
    givenAt_flatMap layers [root]
  rw [hflat] at hvalue
  obtain ⟨layer, hlayer, hvalue⟩ := List.mem_flatMap.mp hvalue
  exact h layer hlayer root hroot value hvalue

/-- What the files leave at the path of a setting. -/
theorem valueAt?_written (h : ∀ layer ∈ layers, HasSections layer) (service environment : String)
    (key : SettingKey) :
    valueAt? (writtenEntries service environment layers) key.path =
      key.value service environment layers := by
  have htables : TablesAlong (layers.flatMap spread) key.path := by
    cases key
    case serviceName | environment => trivial
    all_goals exact ⟨isTable_of_sections h (by decide), trivial⟩
  have hpassed :
      valueAt? (nameLayer service environment) key.path = key.passed service environment := by
    cases key <;> rfl
  rw [writtenEntries, valueAt?_overlay htables, hpassed, givenAt_flatMap]
  rfl

/-- The sections that the files leave are tables. -/
theorem isSection_written (h : ∀ layer ∈ layers, HasSections layer) (service environment : String)
    {root : String} (hroot : root ∈ SettingKey.sections) :
    IsSection ((writtenEntries service environment layers).lookup root) := by
  have hstart : ∀ value, (nameLayer service environment).lookup root = some value →
      value.isTable = true := by
    rcases List.mem_cons.mp hroot with rfl | hroot
    · rintro _ ⟨⟩
    · obtain rfl := List.mem_singleton.mp hroot
      rintro _ ⟨⟩
      rfl
  intro value hvalue
  rw [writtenEntries, lookup_overlay] at hvalue
  exact isTable_of_laid (isTable_of_sections h hroot) hstart value hvalue

end Written

/-! ## Loading -/

/-- The file of a name is there and is no document. -/
def IsUnparsable (files : String → Option String) (name : String) : Prop :=
  name ≠ "" ∧ ∃ text, files (name ++ ".toml") = some text ∧ Toml.document? text = none

/-- A file cannot be read exactly if its text is no document. -/
theorem fileLayer_eq_error_iff {files : String → Option String} {name : String}
    {fault : SettingsFault} :
    fileLayer files name = .error fault ↔ fault = .unreadable ∧ IsUnparsable files name := by
  unfold fileLayer IsUnparsable
  split
  · next hempty =>
    have hname : name = "" := String.isEmpty_iff.mp hempty
    simp [hname]
  · next hempty =>
    have hname : name ≠ "" := fun h => hempty (String.isEmpty_iff.mpr h)
    cases hfile : files (name ++ ".toml") with
    | none => simp
    | some text =>
      cases hdocument : Toml.document? text <;> simp [hname, hdocument, eq_comm]

namespace ServiceSettings

variable {files : String → Option String} {vars : List (String × String)}
  {service environment : String}

/-- Which files cannot be read. -/
theorem load_of_unparsable {fault : SettingsFault}
    (h : (layerNames service environment).mapM (fileLayer files) = .error fault) :
    (∃ name ∈ layerNames service environment, IsUnparsable files name) ∧
      load files vars service environment = .error .unreadable := by
  obtain ⟨before, name, after, hnames, -, hname⟩ := mapM_eq_error_iff.mp h
  obtain ⟨rfl, hunparsable⟩ := fileLayer_eq_error_iff.mp hname
  refine ⟨⟨name, hnames ▸ List.mem_append_right _ List.mem_cons_self, hunparsable⟩, ?_⟩
  rw [load, overlayFiles_eq, h]
  rfl

/-- The settings that are loaded are those in what the files and the environment leave. -/
theorem load_eq {layers : List SettingEntries}
    (hlayers : (layerNames service environment).mapM (fileLayer files) = .ok layers) :
    load files vars service environment =
      (ofEntries? (overlay (writtenEntries service environment layers)
        (spread (environmentLayer vars)))).elim (.error .mistyped) .ok := by
  rw [load, overlayFiles_eq, hlayers, ← overlayLayer_eq, writtenEntries]
  simp only [Except.map, bind, Except.bind]
  cases ofEntries? (overlayLayer (overlay (nameLayer service environment) (layers.flatMap spread))
    (environmentLayer vars)) <;> rfl

/-- What is loaded from files that can be read: the settings, one by one, or nothing if one of them
cannot be read. -/
theorem load_of_layers (hvars : IsUnrelated (environmentLayer vars)) {layers : List SettingEntries}
    (hlayers : (layerNames service environment).mapM (fileLayer files) = .ok layers)
    (hsections : ∀ layer ∈ layers, HasSections layer) :
    (∃ key : SettingKey, key.Unreadable (key.value service environment layers)) ∧
        load files vars service environment = .error .mistyped ∨
      ∃ settings, load files vars service environment = .ok settings ∧
        ∀ key : SettingKey, key.Reads (key.value service environment layers) settings := by
  have hload : load files vars service environment = _ := load_eq hlayers
  have hvalue := fun key => (valueAt?_overlay_of_unrelated hvars _ key).trans
    (valueAt?_written hsections service environment key)
  have hsection : ∀ root ∈ SettingKey.sections,
      IsSection ((overlay (writtenEntries service environment layers)
        (spread (environmentLayer vars))).lookup root) := by
    intro root hroot
    rw [lookup_overlay_of_unrelated hvars _ (SettingKey.mem_roots_of_mem_sections hroot)]
    exact isSection_written hsections service environment hroot
  have hengine := hsection "engine" (by decide)
  have hobservability := hsection "observability" (by decide)
  cases hsettings : ofEntries? (overlay (writtenEntries service environment layers)
      (spread (environmentLayer vars))) with
  | none =>
    obtain ⟨key, hkey⟩ := (ofEntries?_eq_none_iff hengine hobservability).mp hsettings
    rw [hvalue key] at hkey
    exact Or.inl ⟨⟨key, hkey⟩, by rw [hload, hsettings, Option.elim_none]⟩
  | some settings =>
    refine Or.inr ⟨settings, by rw [hload, hsettings, Option.elim_some], fun key => ?_⟩
    have hreads := (ofEntries?_eq_some_iff hengine hobservability).mp hsettings key
    rwa [hvalue key] at hreads

/-- The sections of files are tables if checking them says so. -/
theorem hasSections_of_all
    (h : (layerNames service environment).all (fun name =>
      (fileLayer files name).toOption.all fun layer => decide (HasSections layer)) = true) :
    ∀ name ∈ layerNames service environment, ∀ layer,
      fileLayer files name = .ok layer → HasSections layer := by
  intro name hname layer hlayer
  have hall := List.all_eq_true.mp h name hname
  rw [hlayer] at hall
  exact of_decide_eq_true hall

/-- The files of a service in production. -/
def productionFiles (name : String) : Option String :=
  [("default.toml", "[engine]\ndefault_currency = \"GBP\"\ntrace_enabled = true\n"),
    ("production.toml",
      "[engine]\ninvalid_rule_policy = \"skip\"\n\n[observability]\njson_logs = true\n")].lookup
    name

/-- What stands in the file of a name, if the file is there. -/
def textLayer (files : String → Option String) (name : String) : SettingEntries :=
  ((files (name ++ ".toml")).bind Toml.document?).getD []

/-- Settings are the last values that the files give, one by one, and are loaded if these values
can be read. -/
def LoadsLastValues (files : String → Option String) (service environment : String) : Prop :=
  (∀ name ∈ layerNames service environment, ∀ text ∈ files (name ++ ".toml"),
      (Toml.document? text).isSome) →
    (∀ name ∈ layerNames service environment, HasSections (textLayer files name)) →
      ∀ settings, load files [] service environment = .ok settings ↔
        ∀ key : SettingKey, key.Reads (key.lastGiven service environment
          ((layerNames service environment).map (textLayer files))) settings

/-- Two files that name a policy as tables. -/
def policyFiles (name : String) : Option String :=
  [("default.toml", "[engine]\ninvalid_rule_policy = \x7b abort = 1 \x7d\n"),
    ("test.toml", "[engine]\ninvalid_rule_policy = \x7b skip = 1 \x7d\n")].lookup name

/-- A file without a name. -/
def namelessFiles (name : String) : Option String :=
  [(".toml", "[engine]\ndefault_currency = \"GBP\"\n")].lookup name

end ServiceSettings

end Tariff
