/-
# Rules keep their meaning

A rule that has been read may be written and read again: its decimal defaults become texts, which
count as the same decimals. So the rule has the same flaws, is compiled in the same way and has the
same results with every bag of parameters.

* `ParameterDeclaration.flaw?_reread`, `Rule.flaw?_reread` : the checks;
* `Rule.compile_congr` : what a compilation depends on;
* `CompiledRule.resolve_source_reread` : the numbers that the formulas find;
* `Rule.sameMeaning_reread` : compilation and results;
* `meaning_of_written` : bags and rules that are written and read.
-/
import Tariff.Proofs.Execution.Parameters
import Tariff.Proofs.Rule.Json

namespace Tariff

/-! ## Checks -/

/-- A default that has been read counts as a decimal when it did before. -/
theorem ParameterDeclaration.flaw?_reread {declaration : ParameterDeclaration}
    (h : declaration.HasReadDefault) (before : List String) :
    declaration.reread.flaw? before = declaration.flaw? before := by
  obtain ⟨name, type, default, description⟩ := declaration
  cases default with
  | none => rfl
  | some value =>
    have hdecimal : value.reread.toDecimal? = value.toDecimal? := (h value rfl).toDecimal?_reread
    unfold flaw? reread
    dsimp only [Option.map_some]
    rw [hdecimal]
    -- A flaw names the kind of a default only if it is no decimal.
    cases value with
    | decimal a => simp [ParameterValue.toDecimal?]
    | integer | float | text | boolean | null => rfl

theorem declarationsFlaw?_reread {declarations : List ParameterDeclaration}
    (h : ∀ declaration ∈ declarations, declaration.HasReadDefault) (before : List String) :
    declarationsFlaw? before (declarations.map ParameterDeclaration.reread) =
      declarationsFlaw? before declarations := by
  induction declarations generalizing before with
  | nil => rfl
  | cons declaration declarations ih =>
    obtain ⟨hfirst, hothers⟩ := List.forall_mem_cons.mp h
    rw [List.map_cons, declarationsFlaw?, declarationsFlaw?,
      ParameterDeclaration.flaw?_reread hfirst, ih hothers]
    rfl

namespace Rule

variable {rule : Rule}

theorem flaw?_reread (h : ∀ declaration ∈ rule.parameters, declaration.HasReadDefault) :
    rule.reread.flaw? = rule.flaw? := by
  have hdeclarations := declarationsFlaw?_reread h []
  unfold flaw? reread windowFlaw?
  dsimp only
  rw [hdeclarations]

/-! ## Compilation -/

/-- What a compilation depends on: the id, the formulas and the flaw of a rule; the rule itself and
its defaults are only kept. -/
theorem compile_congr {other : Rule} (hid : rule.id = other.id)
    (hexpression : rule.expression = other.expression)
    (hcondition : rule.condition = other.condition)
    (hflaw : rule.flaw? = other.flaw?) (version : Nat) :
    other.compile version = (rule.compile version).map fun compiled =>
      { compiled with rule := other, defaults := Table.ofList other.declaredDefaults } := by
  have hparse : rule.parseFormula = other.parseFormula := by
    unfold parseFormula
    rw [hid]
  unfold compile
  rw [← hflaw, ← hexpression, ← hcondition, ← hid, ← hparse]
  cases rule.flaw? with
  | some flaw => rfl
  | none =>
    cases hread : rule.parseFormula rule.expression with
    | error fault => simp [bind, Except.bind, Except.map]
    | ok expression =>
      cases hsecond : rule.condition with
      | none => simp [bind, Except.bind, Except.map, pure, Except.pure]
      | some text =>
        cases hformula : rule.parseFormula text <;>
          simp [bind, Except.bind, Except.map, hformula, pure, Except.pure]

theorem declaredDefaults_reread (rule : Rule) :
    rule.reread.declaredDefaults =
      rule.declaredDefaults.map fun entry => (entry.1, entry.2.reread) := by
  unfold declaredDefaults reread
  induction rule.parameters with
  | nil => rfl
  | cons declaration declarations ih =>
    obtain ⟨name, type, default, description⟩ := declaration
    rw [List.map_cons]
    cases default <;> simp_all [ParameterDeclaration.reread]

/-- The defaults that are kept beside a rule are written and read one by one. -/
theorem ofList_declaredDefaults_reread (h : rule.WellFormed) :
    Table.ofList rule.reread.declaredDefaults =
      ParameterBag.reread (Table.ofList rule.declaredDefaults) := by
  have hentries := Table.entries_ofList (nodup_declaredDefaults h)
  rw [← Table.ofList_entries (ParameterBag.reread _), declaredDefaults_reread]
  show _ = Table.ofList ((Table.ofList rule.declaredDefaults).entries.map _)
  rw [hentries]

/-! ## Results -/

/-- Two rules mean the same: at any time, either both are refused with the same error, or both can
be compiled and have the same results with every bag. -/
def SameMeaning (rule other : Rule) : Prop :=
  ∀ version,
    (∃ error, rule.compile version = .error error ∧ other.compile version = .error error) ∨
    ∃ compiled twin, rule.compile version = .ok compiled ∧ other.compile version = .ok twin ∧
      ∀ bag, CompiledRule.SameResults compiled bag twin bag

/-- A rule whose points in time are known where they were not. -/
def stamped (rule : Rule) (created updated : Option Timestamp) : Rule :=
  { rule with
    createdAt := rule.createdAt.or created
    updatedAt := rule.updatedAt.or updated }

end Rule

/-- The numbers that the formulas of a rule find stay the same. -/
theorem CompiledRule.resolve_source_reread {compiled twin : CompiledRule}
    (hfaithful : compiled.Faithful)
    (hread : ∀ declaration ∈ compiled.rule.parameters, declaration.HasReadDefault)
    (hdefaults : twin.defaults = ParameterBag.reread compiled.defaults) (bag : ParameterBag)
    (name : String) : resolve (compiled.source bag) name = resolve (twin.source bag) name := by
  have hget :
      twin.defaults.get? name = (compiled.defaults.get? name).map ParameterValue.reread := by
    rw [hdefaults]
    exact ParameterBag.get?_reread _ name
  cases hbag : bag.get? name with
  | some value => exact resolve_congr ((source_of_get? hbag).trans (source_of_get? hbag).symm)
  | none =>
    cases hdefault : compiled.defaults.get? name with
    | none =>
      rw [hdefault] at hget
      refine resolve_congr ?_
      rw [source, source, withDefaults, withDefaults, hdefault, hget]
      rfl
    | some value =>
      rw [hdefault] at hget
      obtain ⟨declaration, hmem, -, hvalue⟩ := (hfaithful.defaults name value).mp hdefault
      exact (hread declaration hmem value hvalue).resolve_reread
        (source_eq_some_iff.mpr (Or.inr ⟨hbag, hdefault⟩))
        (source_eq_some_iff.mpr (Or.inr ⟨hbag, hget⟩))

namespace Rule

variable {rule : Rule}

/-- A rule that has been read means the same when its defaults have become texts, whatever its
points in time are. -/
theorem sameMeaning_reread (h : ∀ declaration ∈ rule.parameters, declaration.HasReadDefault)
    (created updated : Option Timestamp) :
    rule.SameMeaning (rule.stamped created updated).reread := by
  intro version
  let stamped := rule.stamped created updated
  have hflaw : rule.flaw? = stamped.reread.flaw? :=
    (flaw?_reread (show ∀ declaration ∈ stamped.parameters, _ from h)).symm
  have hid : rule.id = stamped.reread.id := rfl
  have hcompile := compile_congr hid rfl rfl hflaw version
  cases hrule : rule.compile version with
  | error error =>
    rw [hrule] at hcompile
    exact Or.inl ⟨error, rfl, hcompile⟩
  | ok compiled =>
    rw [hrule] at hcompile
    have hfaithful := faithful_of_compile hrule
    have hsame := rule_of_compile hrule
    obtain ⟨hwellFormed, expression, condition, -, -, hcompiled⟩ := compile_eq_ok_iff.mp hrule
    refine Or.inr ⟨compiled, _, rfl, hcompile, fun bag => ?_⟩
    refine CompiledRule.Alike.sameResults ⟨?_, rfl, rfl⟩ hfaithful fun name _ => ?_
    · show compiled.rule.id = rule.id
      rw [hsame]
    · refine CompiledRule.resolve_source_reread hfaithful (hsame ▸ h) ?_ bag name
      have hkept := ofList_declaredDefaults_reread hwellFormed
      rw [hcompiled]
      exact hkept

end Rule

/-! ## What is written and read -/

/-- **What is written and read keeps its meaning.** A bag without doubles keeps its names, and under
each name there is an equal number of the same scale, or the same error as before. A rule that has
been read, and that has no double for a default, is read back from its text with all its fields,
decimal defaults having become texts; it can be compiled exactly if the rule could, and has the same
results with every bag. -/
theorem meaning_of_written (indented : Bool) :
    (∀ bag : ParameterBag, (∀ name value, bag.get? name = some value → value.kind ≠ .float) →
      ∃ reread, ParameterBag.ofText (bag.toJson.laidOut indented) = .ok reread ∧
        reread.names = bag.names ∧
        ∀ name, SameNumber (resolve bag.get? name) (resolve reread.get? name)) ∧
    ∀ rule : Rule, rule.IsRead →
      (∀ declaration ∈ rule.parameters, ∀ value,
        declaration.default = some value → value.kind ≠ .float) →
      ∀ created updated : Option Timestamp,
        (∀ t, created = some t → t.WellFormed) → (∀ t, updated = some t → t.WellFormed) →
        ∃ reread,
          Rule.ofText ((rule.stamped created updated).toJson.laidOut indented) = .ok reread ∧
          reread = (rule.stamped created updated).reread ∧ rule.SameMeaning reread := by
  refine ⟨fun bag hbag => ParameterBag.exists_ofText_toJson hbag indented, ?_⟩
  intro rule hrule hfloat created updated hcreated hupdated
  have hsound := hrule.sound
  have hwritable : (rule.stamped created updated).IsWritable := by
    refine ⟨fun declaration hmem value hvalue => ?_, fun t ht => ?_, fun t ht => ?_⟩
    · exact ⟨hfloat declaration hmem value hvalue,
        (hsound.parameters declaration hmem value hvalue).kind⟩
    · rcases Option.or_eq_some_iff.mp ht with ht | ⟨-, ht⟩
      · exact hsound.createdAt t ht
      · exact hcreated t ht
    · rcases Option.or_eq_some_iff.mp ht with ht | ⟨-, ht⟩
      · exact hsound.updatedAt t ht
      · exact hupdated t ht
  exact ⟨_, Rule.ofText_toJson hwritable indented, rfl,
    Rule.sameMeaning_reread hsound.parameters created updated⟩

/-- A rule as it may be given, with a share of 0.19. -/
def shareText : String :=
  "\x7b\"id\": \"share\", \"country_code\": \"DE\", \"rule_type\": \"vat_rate\", " ++
  "\"expression\": \"turnover * share\", \"effective_from\": \"2024-01-01\", \"parameters\": " ++
  "[\x7b\"name\": \"share\", \"type\": \"percentage\", \"default\": 0.19\x7d]\x7d"

/-- A turnover of zero may lose its sign, and a share that was given as a number becomes a text. -/
theorem meaning_of_written_share :
    let bag : ParameterBag :=
      Table.ofList
        [("turnover", .decimal ⟨true, 0, 2, by decide, by decide⟩), ("months", .text "-4")]
    let now : Timestamp := ⟨⟨2024, 2, 29, by decide⟩, 90, 60, 500000⟩
    (∃ reread, ParameterBag.ofText (bag.toJson.laidOut false) = .ok reread ∧
      reread.names = ["turnover", "months"] ∧
      SameNumber (resolve bag.get? "turnover") (resolve reread.get? "turnover")) ∧
    ∃ rule reread, Rule.ofText shareText = .ok rule ∧
      Rule.ofText ((rule.stamped (some now) (some now)).toJson.laidOut true) = .ok reread ∧
      (reread.parameters.map fun declaration => declaration.default.bind ParameterValue.asText?) =
        [some "0.19"] ∧
      rule.SameMeaning reread := by
  intro bag now
  have hnow : ∀ t, some now = some t → t.WellFormed := by
    rintro _ ⟨⟩
    exact ⟨by decide, by decide, by decide⟩
  have hbag : ∀ name value, bag.get? name = some value → value.kind ≠ .float := by
    intro name value hvalue
    have hkinds : ∀ entry ∈ bag.entries, entry.2.kind ≠ .float := by decide
    exact hkinds (name, value) ((bag.get?_eq_some_iff).mp hvalue)
  obtain ⟨reread, hreread, hnames, hnumbers⟩ := (meaning_of_written false).1 bag hbag
  obtain ⟨rule, hrule, hdefaults⟩ := exists_of_toOption_map
    (show (Rule.ofText shareText).toOption.map (fun rule =>
        (rule.parameters.all (fun declaration => declaration.default.all (·.kind != .float)),
          rule.reread.parameters.map fun declaration =>
            declaration.default.bind ParameterValue.asText?)) =
      some (true, [some "0.19"]) by decide +kernel)
  obtain ⟨hkinds, htexts⟩ := Prod.mk.inj hdefaults
  have hfloat : ∀ declaration ∈ rule.parameters, ∀ value,
      declaration.default = some value → value.kind ≠ .float := by
    intro declaration hmem value hvalue
    have hall := List.all_eq_true.mp hkinds declaration hmem
    rw [hvalue, Option.all_some] at hall
    exact bne_iff_ne.mp hall
  obtain ⟨other, hother, rfl, hmeaning⟩ := (meaning_of_written true).2 rule
    (Rule.isRead_of_ofText hrule) hfloat (some now) (some now) hnow hnow
  exact ⟨⟨reread, hreread, hnames, hnumbers "turnover"⟩, rule, _, hrule, hother, htexts, hmeaning⟩

end Tariff
