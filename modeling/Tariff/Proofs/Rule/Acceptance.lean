/-
# Which rules are accepted

A rule is accepted exactly when it is well formed and its formulas can be read. One that is rejected
is told with its id and with what is wrong: a flaw that it really has, or the first of its formulas
that cannot be read, with the reason. Only rules that are accepted count as compilations.

* `hasFlaw_of_flaw?` : flaws that are reported are there;
* `compile_eq_error_iff` : what a rejection says, and when there is one;
* `advances_of_compile_ok`, `advances_of_compile_error` : which compilations are counted;
* `compile_accepts_wellFormed` : which rules are accepted, and what the others are told.
-/
import Tariff.Catalog.Batch
import Tariff.Proofs.Rule.Compilation

namespace Tariff

/-! ## Flaws -/

/-- What is wrong with a declaration, after declarations of the given names: its name is none, or
was declared before, or it has a default that counts as no decimal although it is not a text. -/
inductive ParameterDeclaration.HasFlaw (before : List String) (declaration : ParameterDeclaration) :
    RuleFlaw → Prop where
  | badName (hname : isName declaration.name = false) :
      HasFlaw before declaration (.badParameterName declaration.name)
  | repeated (hname : declaration.name ∈ before) :
      HasFlaw before declaration (.repeatedParameter declaration.name)
  | badDefault {value : ParameterValue} (htype : declaration.type ≠ .text)
      (hdefault : declaration.default = some value) (hdecimal : value.toDecimal? = none) :
      HasFlaw before declaration (.badDefault declaration.name value.kind)

/-- What is wrong with a rule, its formulas aside. -/
inductive Rule.HasFlaw (rule : Rule) : RuleFlaw → Prop where
  | blankId (hblank : ∀ c ∈ rule.id.toList, isBlank c = true) : HasFlaw rule .blankId
  | badCountry
      (hcountry : ¬ ∃ a b, rule.country.toList = [a, b] ∧ a.isAlpha = true ∧ b.isAlpha = true) :
      HasFlaw rule (.badCountry rule.country)
  | reversedWindow {last : Date} (hlast : rule.effectiveTo = some last)
      (hreversed : last < rule.effectiveFrom) :
      HasFlaw rule (.reversedWindow rule.effectiveFrom last)
  | declaration {earlier later : List ParameterDeclaration} {declaration : ParameterDeclaration}
      {flaw : RuleFlaw} (hsplit : rule.parameters = earlier ++ declaration :: later)
      (hflaw : declaration.HasFlaw (earlier.map ParameterDeclaration.name) flaw) :
      HasFlaw rule flaw

theorem ParameterDeclaration.hasFlaw_of_flaw? {before : List String}
    {declaration : ParameterDeclaration} {flaw : RuleFlaw}
    (h : declaration.flaw? before = some flaw) : declaration.HasFlaw before flaw := by
  unfold flaw? at h
  split at h
  · next hname =>
    cases h
    exact .badName (by simpa using hname)
  split at h
  · next hbefore =>
    cases h
    exact .repeated (List.contains_iff_mem.mp hbefore)
  split at h
  · next value hdefault =>
    split at h
    · next hbad =>
      cases h
      rw [Bool.and_eq_true, Option.isNone_iff_eq_none, ParameterType.isNumeric, bne_iff_ne] at hbad
      exact .badDefault hbad.1 hdefault hbad.2
    · cases h
  · cases h

/-- Only the names before a declaration matter, and not their order. -/
theorem ParameterDeclaration.HasFlaw.mono {before others : List String}
    {declaration : ParameterDeclaration} {flaw : RuleFlaw} (h : declaration.HasFlaw before flaw)
    (hsubset : before ⊆ others) : declaration.HasFlaw others flaw := by
  cases h with
  | badName hname => exact .badName hname
  | repeated hname => exact .repeated (hsubset hname)
  | badDefault htype hdefault hdecimal => exact .badDefault htype hdefault hdecimal

/-- A flaw among declarations is that of one of them, after those before it. -/
theorem exists_hasFlaw_of_declarationsFlaw? {before : List String}
    {declarations : List ParameterDeclaration} {flaw : RuleFlaw}
    (h : declarationsFlaw? before declarations = some flaw) :
    ∃ earlier declaration later, declarations = earlier ++ declaration :: later ∧
      declaration.HasFlaw (before ++ earlier.map ParameterDeclaration.name) flaw := by
  induction declarations generalizing before with
  | nil => cases h
  | cons first declarations ih =>
    rw [declarationsFlaw?, Option.or_eq_some_iff] at h
    rcases h with hfirst | ⟨-, hothers⟩
    · refine ⟨[], first, declarations, rfl, ?_⟩
      rw [List.map_nil, List.append_nil]
      exact ParameterDeclaration.hasFlaw_of_flaw? hfirst
    · obtain ⟨earlier, declaration, later, rfl, hflaw⟩ := ih hothers
      -- The name of the first was put in front of those before, and is not next in the order.
      refine ⟨first :: earlier, declaration, later, rfl, hflaw.mono ?_⟩
      rw [List.map_cons]
      exact (List.perm_middle.symm).subset

theorem hasFlaw_of_windowFlaw? {rule : Rule} {flaw : RuleFlaw}
    (h : rule.windowFlaw? = some flaw) : rule.HasFlaw flaw := by
  unfold Rule.windowFlaw? at h
  split at h
  · next last hlast =>
    split at h
    · next hreversed =>
      cases h
      exact .reversedWindow hlast hreversed
    · cases h
  · cases h

/-- A flaw that is reported is there. -/
theorem hasFlaw_of_flaw? {rule : Rule} {flaw : RuleFlaw} (h : rule.flaw? = some flaw) :
    rule.HasFlaw flaw := by
  unfold Rule.flaw? at h
  split at h
  · next hblank =>
    cases h
    exact .blankId (List.all_eq_true.mp hblank)
  split at h
  · next hcountry =>
    cases h
    rw [Bool.not_eq_true', Bool.eq_false_iff, ne_eq, isLetterCode_two_iff] at hcountry
    exact .badCountry hcountry
  rcases Option.or_eq_some_iff.mp h with hwindow | ⟨-, hdeclarations⟩
  · exact hasFlaw_of_windowFlaw? hwindow
  · obtain ⟨earlier, declaration, later, hsplit, hflaw⟩ :=
      exists_hasFlaw_of_declarationsFlaw? hdeclarations
    exact .declaration hsplit hflaw

/-- A rule is ill formed exactly when a flaw is reported. -/
theorem exists_flaw?_iff {rule : Rule} : (∃ flaw, rule.flaw? = some flaw) ↔ ¬ rule.WellFormed := by
  rw [← flaw?_eq_none_iff, ← ne_eq, Option.ne_none_iff_exists']

/-! ## Rejections -/

/-- What a rejected rule is told: its first flaw; or else that its expression cannot be read, or
that its condition cannot, with the text and the reason. -/
inductive Rule.Rejected (rule : Rule) : RuleError → Prop where
  | flawed {flaw : RuleFlaw} (hflaw : rule.flaw? = some flaw) :
      Rejected rule (.invalidRule rule.id flaw)
  | expression {fault : SyntaxFault} (hwellFormed : rule.WellFormed)
      (hfault : Formula.parse rule.expression = .error fault) :
      Rejected rule (.ruleFailed rule.id .parse rule.expression (.malformed fault))
  | condition {formula : Formula} {text : String} {fault : SyntaxFault}
      (hwellFormed : rule.WellFormed) (hexpression : Formula.parse rule.expression = .ok formula)
      (hcondition : rule.condition = some text) (hfault : Formula.parse text = .error fault) :
      Rejected rule (.ruleFailed rule.id .parse text (.malformed fault))

theorem parseFormula_eq_error_iff {rule : Rule} {text : String} {error : RuleError} :
    rule.parseFormula text = .error error ↔ ∃ fault, Formula.parse text = .error fault ∧
      .ruleFailed rule.id .parse text (.malformed fault) = error :=
  mapError_eq_error_iff

/-- A compilation fails exactly with what a rejected rule is told. -/
theorem compile_eq_error_iff {rule : Rule} {version : Nat} {error : RuleError} :
    rule.compile version = .error error ↔ rule.Rejected error := by
  rw [Rule.compile]
  -- A rule with a flaw is rejected before its formulas are read.
  cases hflaw : rule.flaw? with
  | some flaw =>
    have hill : ¬ rule.WellFormed := exists_flaw?_iff.mp ⟨flaw, hflaw⟩
    constructor
    · intro h
      cases h
      exact .flawed hflaw
    · intro h
      cases h with
      | flawed hother =>
        rw [hflaw] at hother
        cases hother
        rfl
      | expression hwellFormed => exact absurd hwellFormed hill
      | condition hwellFormed => exact absurd hwellFormed hill
  | none =>
    have hwellFormed : rule.WellFormed := flaw?_eq_none_iff.mp hflaw
    simp only [bind_eq_error_iff, parseFormula_eq_ok_iff, parseFormula_eq_error_iff]
    constructor
    · rintro (⟨fault, hfault, rfl⟩ | ⟨expression, hexpression, h⟩)
      · exact .expression hwellFormed hfault
      · cases hcondition : rule.condition with
        | none =>
          rw [hcondition] at h
          cases h
        | some text =>
          rw [hcondition] at h
          rcases bind_eq_error_iff.mp h with herror | ⟨formula, -, h⟩
          · obtain ⟨fault, hfault, rfl⟩ := parseFormula_eq_error_iff.mp (map_eq_error_iff.mp herror)
            exact .condition hwellFormed hexpression hcondition hfault
          · cases h
    · intro h
      cases h with
      | flawed hother =>
        rw [hflaw] at hother
        cases hother
      | expression hwellFormed hfault => exact Or.inl ⟨_, hfault, rfl⟩
      | @condition formula text fault hwellFormed hexpression hcondition hfault =>
        refine Or.inr ⟨formula, hexpression, ?_⟩
        rw [hcondition]
        exact bind_eq_error_iff.mpr (Or.inl (map_eq_error_iff.mpr
          (parseFormula_eq_error_iff.mpr ⟨fault, hfault, rfl⟩)))

/-- A rejected rule is told with its id. -/
theorem Rule.Rejected.ruleId? {rule : Rule} {error : RuleError} (h : rule.Rejected error) :
    error.ruleId? = some rule.id := by
  cases h with
  | flawed => rfl
  | expression => rfl
  | condition => rfl

/-! ## Counting -/

/-- Wherever a rule is compiled, alone or as the first of a list, the number of compilations that
succeeded goes from `version` to `next`. -/
structure Rule.Advances (rule : Rule) (version next : Nat) : Prop where
  load : ∀ rules, (Catalog.load ⟨rules, version⟩ rule).2.version = next
  batch : ∀ seen others, rule.id ∉ seen →
    (compileBatch seen version (rule :: others)).version =
      (compileBatch (rule.id :: seen) next others).version

/-- A rule that is compiled counts. -/
theorem advances_of_compile_ok {rule : Rule} {version : Nat} {compiled : CompiledRule}
    (h : rule.compile version = .ok compiled) : rule.Advances version (version + 1) := by
  have hversion := version_of_compile h
  refine ⟨?_, ?_⟩
  · intro rules
    rw [Catalog.load, h]
    exact hversion
  · intro seen others hunseen
    rw [compileBatch, if_neg (by simpa using hunseen), h, ← hversion]

/-- A rule that is rejected does not. -/
theorem advances_of_compile_error {rule : Rule} {version : Nat} {error : RuleError}
    (h : rule.compile version = .error error) : rule.Advances version version := by
  refine ⟨?_, ?_⟩
  · intro rules
    rw [Catalog.load, h]
  · intro seen others hunseen
    rw [compileBatch, if_neg (by simpa using hunseen), h]

/-! ## Acceptance -/

/-- **Exactly the well-formed rules with readable formulas are accepted.** A rule that is accepted
is kept as it is, with the next version, and counts as one compilation. One that is rejected does
not count, and its error holds its id: if the rule is ill formed, with a flaw that it has, and
otherwise with the text of its expression, or, if that can be read, of its condition, and beneath it
with the reason for which this text cannot be read. -/
theorem compile_accepts_wellFormed (rule : Rule) (version : Nat) :
    ((∃ compiled, rule.compile version = .ok compiled) ↔
      rule.WellFormed ∧ (∃ formula, Formula.parse rule.expression = .ok formula) ∧
        ∀ text, rule.condition = some text → ∃ formula, Formula.parse text = .ok formula) ∧
    (∀ compiled, rule.compile version = .ok compiled →
      compiled.version = version + 1 ∧ compiled.rule = rule ∧
        rule.Advances version (version + 1)) ∧
    ∀ error, rule.compile version = .error error →
      error.ruleId? = some rule.id ∧ rule.Advances version version ∧
      (¬ rule.WellFormed → ∃ flaw, rule.HasFlaw flaw ∧ error = .invalidRule rule.id flaw) ∧
      (rule.WellFormed → ∃ text fault,
        (text = rule.expression ∨ (∃ formula, Formula.parse rule.expression = .ok formula) ∧
          rule.condition = some text) ∧
        Formula.parse text = .error fault ∧ error.rootCause = .malformed fault ∧
        error = .ruleFailed rule.id .parse text (.malformed fault)) := by
  refine ⟨exists_compile_iff_wellFormed, ?_, ?_⟩
  · intro compiled hcompile
    exact ⟨version_of_compile hcompile, rule_of_compile hcompile, advances_of_compile_ok hcompile⟩
  · intro error herror
    have hrejected : rule.Rejected error := compile_eq_error_iff.mp herror
    refine ⟨hrejected.ruleId?, advances_of_compile_error herror, ?_, ?_⟩
    · intro hill
      cases hrejected with
      | flawed hflaw => exact ⟨_, hasFlaw_of_flaw? hflaw, rfl⟩
      | expression hwellFormed => exact absurd hwellFormed hill
      | condition hwellFormed => exact absurd hwellFormed hill
    · intro hwellFormed
      cases hrejected with
      | flawed hflaw => exact absurd hwellFormed (exists_flaw?_iff.mp ⟨_, hflaw⟩)
      | expression _ hfault => exact ⟨_, _, Or.inl rfl, hfault, rfl, rfl⟩
      | condition _ hexpression hcondition hfault =>
        exact ⟨_, _, Or.inr ⟨⟨_, hexpression⟩, hcondition⟩, hfault, rfl, rfl⟩

/-- A rule that is accepted after six others, one that declares a parameter twice, and one with a
condition that ends in an operator. -/
theorem compile_accepts_wellFormed_share :
    let twice : Rule :=
      { shareRule with parameters := shareRule.parameters ++ shareRule.parameters }
    let unfinished : Rule := { shareRule with condition := some "turnover +" }
    (∃ compiled, shareRule.compile 6 = .ok compiled ∧ compiled.version = 7 ∧
      shareRule.Advances 6 7) ∧
    (∃ error flaw, twice.compile 6 = .error error ∧ twice.Advances 6 6 ∧
      twice.HasFlaw flaw ∧ error = .invalidRule "share" flaw) ∧
    ∃ error fault, unfinished.compile 6 = .error error ∧ unfinished.Advances 6 6 ∧
      Formula.parse "turnover +" = .error fault ∧
      error = .ruleFailed "share" .parse "turnover +" (.malformed fault) := by
  intro twice unfinished
  refine ⟨?_, ?_, ?_⟩
  · obtain ⟨compiled, hcompile⟩ := exists_ok_iff_isOk.mpr
      (show (shareRule.compile 6).isOk = true by decide +kernel)
    obtain ⟨hversion, -, hadvances⟩ :=
      (compile_accepts_wellFormed shareRule 6).2.1 compiled hcompile
    exact ⟨compiled, hcompile, hversion, hadvances⟩
  · have hill : ¬ twice.WellFormed := by
      intro hwellFormed
      exact absurd hwellFormed.distinct (by decide)
    obtain ⟨hiff, -, hrejected⟩ := compile_accepts_wellFormed twice 6
    obtain ⟨error, herror⟩ : ∃ error, twice.compile 6 = .error error :=
      exists_error_of_forall_ne fun compiled hcompile => hill (hiff.mp ⟨compiled, hcompile⟩).1
    obtain ⟨-, hadvances, hflawed, -⟩ := hrejected error herror
    obtain ⟨flaw, hflaw, rfl⟩ := hflawed hill
    exact ⟨_, flaw, herror, hadvances, hflaw, rfl⟩
  · have hwellFormed : unfinished.WellFormed := flaw?_eq_none_iff.mp (by decide +kernel)
    have hexpression : (Formula.parse unfinished.expression).isOk = true := by decide +kernel
    have hcondition : (Formula.parse "turnover +").isOk = false := by decide +kernel
    obtain ⟨hiff, -, hrejected⟩ := compile_accepts_wellFormed unfinished 6
    obtain ⟨error, herror⟩ : ∃ error, unfinished.compile 6 = .error error :=
      exists_error_of_forall_ne fun compiled hcompile => by
        obtain ⟨formula, hformula⟩ := (hiff.mp ⟨compiled, hcompile⟩).2.2 "turnover +" rfl
        rw [hformula] at hcondition
        cases hcondition
    obtain ⟨-, hadvances, -, hunreadable⟩ := hrejected error herror
    obtain ⟨text, fault, htext, hfault, -, rfl⟩ := hunreadable hwellFormed
    rcases htext with rfl | ⟨-, htext⟩
    · rw [hfault] at hexpression
      cases hexpression
    · cases htext
      exact ⟨_, fault, herror, hadvances, hfault, rfl⟩

end Tariff
