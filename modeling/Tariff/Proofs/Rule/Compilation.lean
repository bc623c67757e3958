/-
# What compilation yields

A rule is compiled when it is well formed and its formulas can be read, and the compiled rule is
then faithful to it: what is kept beside the rule is what the rule's own fields say.

* `flaw?_eq_none_iff` : a rule without a flaw is well formed;
* `compile_eq_ok_iff` : what a compilation yields, and when;
* `faithful_of_compile` : a compiled rule is faithful;
* `exists_compile_iff_wellFormed` : which rules can be compiled.
-/
import Tariff.Proofs.Outcome
import Tariff.Rule.Compiled

namespace Tariff

/-! ## Well-formed rules -/

/-- A default counts as a decimal, unless the parameter is declared as a text. -/
def ParameterDeclaration.HasUsableDefault (declaration : ParameterDeclaration) : Prop :=
  declaration.type = .text ∨
    ∀ value, declaration.default = some value → ∃ decimal, value.toDecimal? = some decimal

/-- What every rule has to satisfy, its formulas aside. -/
structure Rule.WellFormed (rule : Rule) : Prop where
  id : ∃ c ∈ rule.id.toList, isBlank c = false
  country : ∃ a b, rule.country.toList = [a, b] ∧ a.isAlpha = true ∧ b.isAlpha = true
  window : ∀ last, rule.effectiveTo = some last → rule.effectiveFrom ≤ last
  names : ∀ declaration ∈ rule.parameters, isName declaration.name = true
  distinct : (rule.parameters.map ParameterDeclaration.name).Nodup
  defaults : ∀ declaration ∈ rule.parameters, declaration.HasUsableDefault

/-- A text is not blank if one of its characters is not. -/
theorem isBlankText_eq_false_iff {text : String} :
    isBlankText text = false ↔ ∃ c ∈ text.toList, isBlank c = false := by
  rw [isBlankText, List.all_eq_false]
  simp

/-- A code of two letters consists of just them. -/
theorem isLetterCode_two_iff {text : String} :
    isLetterCode 2 text = true ↔
      ∃ a b, text.toList = [a, b] ∧ a.isAlpha = true ∧ b.isAlpha = true := by
  rw [isLetterCode, Bool.and_eq_true, beq_iff_eq, List.all_eq_true]
  constructor
  · rintro ⟨hlength, hletters⟩
    rcases htext : text.toList with _ | ⟨a, _ | ⟨b, _ | ⟨c, rest⟩⟩⟩
    · simp [htext] at hlength
    · simp [htext] at hlength
    · rw [htext] at hletters
      exact ⟨a, b, rfl, hletters a (by simp), hletters b (by simp)⟩
    · simp [htext] at hlength
  · rintro ⟨a, b, htext, ha, hb⟩
    rw [htext]
    exact ⟨rfl, by simp [ha, hb]⟩

/-- The window of a rule is in order unless it ends before it begins. -/
theorem windowFlaw?_eq_none_iff {rule : Rule} :
    rule.windowFlaw? = none ↔
      ∀ last, rule.effectiveTo = some last → rule.effectiveFrom ≤ last := by
  unfold Rule.windowFlaw?
  split
  · next last hlast =>
    rw [hlast]
    split
    · next hless =>
      constructor
      · intro h
        contradiction
      · intro h
        have hle : rule.effectiveFrom.rank ≤ last.rank := h last rfl
        have hlt : last.rank < rule.effectiveFrom.rank := hless
        omega
    · next hless =>
      constructor
      · rintro - other hother
        cases hother
        show rule.effectiveFrom.rank ≤ last.rank
        exact Int.not_lt.mp hless
      · intro
        rfl
  · next hnone => simp [hnone]

/-- A declaration is in order if its name is one, is new, and its default can be used. -/
theorem declarationFlaw?_eq_none_iff {before : List String} {declaration : ParameterDeclaration} :
    declaration.flaw? before = none ↔
      isName declaration.name = true ∧ declaration.name ∉ before ∧
        declaration.HasUsableDefault := by
  unfold ParameterDeclaration.flaw? ParameterDeclaration.HasUsableDefault
  by_cases hname : isName declaration.name = true
  · by_cases hbefore : declaration.name ∈ before
    · simp [hname, hbefore]
    · rw [hname, List.contains_eq_mem, decide_eq_false hbefore]
      cases hdefault : declaration.default with
      | none => simp [hbefore]
      | some value =>
        by_cases htype : declaration.type = .text
        · simp [hbefore, htype, ParameterType.isNumeric]
        · simpa [hbefore, htype, ParameterType.isNumeric] using Option.ne_none_iff_exists'
  · simp [hname]

/-- Declarations are in order if each of them is and no two have the same name. -/
theorem declarationsFlaw?_eq_none_iff {before : List String}
    {declarations : List ParameterDeclaration} :
    declarationsFlaw? before declarations = none ↔
      (∀ declaration ∈ declarations, isName declaration.name = true) ∧
      ((declarations.map ParameterDeclaration.name).Nodup ∧
        ∀ declaration ∈ declarations, declaration.name ∉ before) ∧
      ∀ declaration ∈ declarations, declaration.HasUsableDefault := by
  induction declarations generalizing before with
  | nil => simp [declarationsFlaw?]
  | cons first declarations ih =>
    rw [declarationsFlaw?, Option.or_eq_none_iff, declarationFlaw?_eq_none_iff, ih]
    constructor
    · rintro ⟨⟨hname, hbefore, hdefault⟩, hnames, ⟨hdistinct, hothers⟩, hdefaults⟩
      refine ⟨List.forall_mem_cons.mpr ⟨hname, hnames⟩, ⟨?_, ?_⟩,
        List.forall_mem_cons.mpr ⟨hdefault, hdefaults⟩⟩
      · rw [List.map_cons, List.nodup_cons]
        refine ⟨?_, hdistinct⟩
        intro hmem
        obtain ⟨other, hother, hsame⟩ := List.mem_map.mp hmem
        exact hothers other hother (hsame ▸ List.mem_cons_self)
      · exact List.forall_mem_cons.mpr
          ⟨hbefore, fun other hother h => hothers other hother (List.mem_cons_of_mem _ h)⟩
    · rintro ⟨hnames, ⟨hdistinct, hbefore⟩, hdefaults⟩
      rw [List.forall_mem_cons] at hnames hbefore hdefaults
      rw [List.map_cons, List.nodup_cons] at hdistinct
      refine ⟨⟨hnames.1, hbefore.1, hdefaults.1⟩, hnames.2, ⟨hdistinct.2, ?_⟩, hdefaults.2⟩
      intro other hother hmem
      rcases List.mem_cons.mp hmem with hsame | hmem
      · exact hdistinct.1 (hsame ▸ List.mem_map_of_mem hother)
      · exact hbefore.2 other hother hmem

/-- A rule has no flaw exactly when it is well formed. -/
theorem flaw?_eq_none_iff {rule : Rule} : rule.flaw? = none ↔ rule.WellFormed := by
  unfold Rule.flaw?
  by_cases hid : isBlankText rule.id = true
  · rw [if_pos hid]
    constructor
    · intro h
      contradiction
    · intro h
      have hfalse := isBlankText_eq_false_iff.mpr h.id
      rw [hid] at hfalse
      contradiction
  · rw [if_neg hid]
    by_cases hcountry : isLetterCode 2 rule.country = true
    · rw [hcountry, Bool.not_true, if_neg Bool.false_ne_true, Option.or_eq_none_iff,
        windowFlaw?_eq_none_iff, declarationsFlaw?_eq_none_iff]
      constructor
      · rintro ⟨hwindow, hnames, ⟨hdistinct, -⟩, hdefaults⟩
        exact ⟨isBlankText_eq_false_iff.mp (Bool.eq_false_iff.mpr hid),
          isLetterCode_two_iff.mp hcountry, hwindow, hnames, hdistinct, hdefaults⟩
      · intro h
        exact ⟨h.window, h.names, ⟨h.distinct, by simp⟩, h.defaults⟩
    · constructor
      · intro h
        rw [Bool.eq_false_iff.mpr hcountry] at h
        contradiction
      · intro h
        exact absurd (isLetterCode_two_iff.mpr h.country) hcountry

/-! ## Compilation -/

/-- Each formula is what its text is read as. -/
def ReadsAs (text : Option String) (formula : Option Formula) : Prop :=
  Option.Rel (fun text formula => Formula.parse text = .ok formula) text formula

/-- A rule reads its formulas as formulas are read. -/
theorem parseFormula_eq_ok_iff {rule : Rule} {text : String} {formula : Formula} :
    rule.parseFormula text = .ok formula ↔ Formula.parse text = .ok formula :=
  mapError_eq_ok_iff

/-- What a compilation yields, and when it yields something. -/
theorem compile_eq_ok_iff {rule : Rule} {version : Nat} {compiled : CompiledRule} :
    rule.compile version = .ok compiled ↔
      rule.WellFormed ∧ ∃ expression condition,
        Formula.parse rule.expression = .ok expression ∧ ReadsAs rule.condition condition ∧
        compiled = {
          rule, expression, condition
          requiredParameters := parametersOf
            (expression.tokens ++ (condition.map Formula.tokens).getD [])
          defaults := Table.ofList rule.declaredDefaults
          version := version + 1 } := by
  rw [← flaw?_eq_none_iff, Rule.compile]
  cases hflaw : rule.flaw? with
  | some flaw =>
    constructor
    · intro h
      cases h
    · rintro ⟨h, -⟩
      contradiction
  | none =>
    simp only [bind_eq_ok_iff, parseFormula_eq_ok_iff]
    constructor
    · rintro ⟨expression, hexpression, h⟩
      cases hcondition : rule.condition with
      | none =>
        rw [hcondition] at h
        cases h
        exact ⟨trivial, expression, none, hexpression, .none, rfl⟩
      | some text =>
        rw [hcondition] at h
        obtain ⟨condition, hmap, hcompiled⟩ := bind_eq_ok_iff.mp h
        obtain ⟨formula, hformula, rfl⟩ := map_eq_ok_iff.mp hmap
        cases hcompiled
        exact ⟨trivial, expression, some formula, hexpression,
          .some (parseFormula_eq_ok_iff.mp hformula), rfl⟩
    · rintro ⟨-, expression, condition, hexpression, hcondition, rfl⟩
      refine ⟨expression, hexpression, ?_⟩
      cases htext : rule.condition with
      | none =>
        rw [htext] at hcondition
        cases hcondition
        rfl
      | some text =>
        rw [htext] at hcondition
        rcases hcondition with @⟨_, formula, hformula⟩ | _
        have hread : (rule.parseFormula text).map some = .ok (some formula) :=
          map_eq_ok_iff.mpr ⟨formula, parseFormula_eq_ok_iff.mpr hformula, rfl⟩
        exact bind_eq_ok_iff.mpr ⟨some formula, hread, rfl⟩

/-! ## Faithfulness -/

/-- What is kept beside a rule is what the rule's own fields say. -/
structure CompiledRule.Faithful (compiled : CompiledRule) : Prop where
  wellFormed : compiled.rule.WellFormed
  expression : Formula.parse compiled.rule.expression = .ok compiled.expression
  condition : ReadsAs compiled.rule.condition compiled.condition
  parameters : ∀ name, name ∈ compiled.requiredParameters ↔
    name ∈ compiled.expression.parameters ∨
      ∃ formula, compiled.condition = some formula ∧ name ∈ formula.parameters
  defaults : ∀ name value, compiled.defaults.get? name = some value ↔
    ∃ declaration ∈ compiled.rule.parameters,
      declaration.name = name ∧ declaration.default = some value

/-- The parameters of a list of tokens that is made of two. -/
theorem mem_parametersOf_append {name : String} {first second : List Token} :
    name ∈ parametersOf (first ++ second) ↔
      name ∈ parametersOf first ∨ name ∈ parametersOf second := by
  rw [mem_parametersOf, mem_parametersOf, mem_parametersOf, List.mem_append]

/-- The declared defaults are those of the declarations that have one. -/
theorem mem_declaredDefaults {rule : Rule} {name : String} {value : ParameterValue} :
    (name, value) ∈ rule.declaredDefaults ↔
      ∃ declaration ∈ rule.parameters,
        declaration.name = name ∧ declaration.default = some value := by
  simp only [Rule.declaredDefaults, List.mem_filterMap, Option.map_eq_some_iff, Prod.mk.injEq]
  constructor
  · rintro ⟨declaration, hmem, _, hdefault, rfl, rfl⟩
    exact ⟨declaration, hmem, rfl, hdefault⟩
  · rintro ⟨declaration, hmem, rfl, hdefault⟩
    exact ⟨declaration, hmem, value, hdefault, rfl, rfl⟩

/-- A well-formed rule declares at most one default of each name. -/
theorem nodup_declaredDefaults {rule : Rule} (h : rule.WellFormed) :
    (rule.declaredDefaults.map Prod.fst).Nodup := by
  refine List.Nodup.sublist ?_ h.distinct
  unfold Rule.declaredDefaults
  induction rule.parameters with
  | nil => exact List.Sublist.slnil
  | cons declaration declarations ih =>
    cases hdefault : declaration.default with
    | none =>
      rw [List.filterMap_cons_none (by rw [hdefault]; rfl)]
      exact ih.cons _
    | some value =>
      rw [List.filterMap_cons_some (by rw [hdefault]; rfl)]
      exact ih.cons_cons _

/-- The default that is kept under a name is the one that is declared for it. -/
theorem get?_declaredDefaults {rule : Rule} (h : rule.WellFormed) {name : String}
    {value : ParameterValue} :
    (Table.ofList rule.declaredDefaults).get? name = some value ↔
      ∃ declaration ∈ rule.parameters,
        declaration.name = name ∧ declaration.default = some value := by
  rw [Table.get?_eq_some_iff, Table.entries_ofList (nodup_declaredDefaults h),
    mem_declaredDefaults]

/-- A rule that was compiled is faithful. -/
theorem faithful_of_compile {rule : Rule} {version : Nat} {compiled : CompiledRule}
    (h : rule.compile version = .ok compiled) : compiled.Faithful := by
  obtain ⟨hwellFormed, expression, condition, hexpression, hcondition, rfl⟩ :=
    compile_eq_ok_iff.mp h
  refine ⟨hwellFormed, hexpression, hcondition, ?_, fun _ _ => get?_declaredDefaults hwellFormed⟩
  intro name
  rw [mem_parametersOf_append]
  cases condition with
  | none => simp [Formula.parameters, parametersOf]
  | some formula => simp [Formula.parameters]

/-- Compiling keeps the rule as it is. -/
theorem rule_of_compile {rule : Rule} {version : Nat} {compiled : CompiledRule}
    (h : rule.compile version = .ok compiled) : compiled.rule = rule := by
  obtain ⟨-, _, _, -, -, rfl⟩ := compile_eq_ok_iff.mp h
  rfl

/-- A compiled rule has the next version. -/
theorem version_of_compile {rule : Rule} {version : Nat} {compiled : CompiledRule}
    (h : rule.compile version = .ok compiled) : compiled.version = version + 1 := by
  obtain ⟨-, _, _, -, -, rfl⟩ := compile_eq_ok_iff.mp h
  rfl

/-! ## Rules that can be compiled -/

namespace Rule

/-- Whether a rule has no flaw and all its formulas can be read. -/
def isCompilable (rule : Rule) : Bool :=
  rule.flaw?.isNone && (Formula.parse rule.expression).isOk &&
    rule.condition.all fun text => (Formula.parse text).isOk

end Rule

/-- The formulas of an optional text can be read when the text, if there is one, can be read. -/
theorem exists_readsAs_iff {text : Option String} :
    (∃ formula, ReadsAs text formula) ↔
      ∀ source, text = some source → ∃ formula, Formula.parse source = .ok formula := by
  constructor
  · rintro ⟨formula, hreads⟩ source rfl
    rcases hreads with hformula | _
    exact ⟨_, hformula⟩
  · intro h
    cases text with
    | none => exact ⟨none, .none⟩
    | some source =>
      obtain ⟨formula, hformula⟩ := h source rfl
      exact ⟨some formula, .some hformula⟩

/-- A rule can be compiled when it is well formed and its formulas can be read, at any time. -/
theorem exists_compile_iff_wellFormed {rule : Rule} {version : Nat} :
    (∃ compiled, rule.compile version = .ok compiled) ↔
      rule.WellFormed ∧ (∃ formula, Formula.parse rule.expression = .ok formula) ∧
        ∀ text, rule.condition = some text → ∃ formula, Formula.parse text = .ok formula := by
  simp only [compile_eq_ok_iff, ← exists_readsAs_iff]
  constructor
  · rintro ⟨_, hwellFormed, expression, condition, hexpression, hcondition, -⟩
    exact ⟨hwellFormed, ⟨expression, hexpression⟩, condition, hcondition⟩
  · rintro ⟨hwellFormed, ⟨expression, hexpression⟩, condition, hcondition⟩
    exact ⟨_, hwellFormed, expression, condition, hexpression, hcondition, rfl⟩

/-- Whether a rule can be compiled does not depend on the version. -/
theorem exists_compile_iff {rule : Rule} {version : Nat} :
    (∃ compiled, rule.compile version = .ok compiled) ↔ rule.isCompilable = true := by
  rw [exists_compile_iff_wellFormed, ← flaw?_eq_none_iff]
  simp only [Rule.isCompilable, Bool.and_eq_true, ← exists_ok_iff_isOk,
    Option.isNone_iff_eq_none, Option.all_eq_true, and_assoc]

/-! ## A rule for examples -/

/-- A fee of a share of the turnover for each month, if there is a turnover. -/
def shareRule : Rule where
  id := "share"
  name := "share"
  country := "DE"
  type := .vatRate
  expression := "if(turnover, turnover * share, 0) / months"
  condition := some "turnover"
  priority := 1
  effectiveFrom := ⟨2022, 7, 1, by decide⟩
  effectiveTo := none
  parameters := [⟨"share", .percentage, some (.text "0.2"), none⟩]
  description := none
  createdAt := none
  updatedAt := none

end Tariff
