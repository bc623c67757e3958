/-
# Names that can be declared, names that can be referred to

The check of declarations and the reader of formulas each have a notion of a name, and it is the
same one. A name that may be declared, that of a function included, is read as this parameter where
it stands alone, with any white space around it; and what a formula refers to may be declared. So a
rule can declare all the parameters of its formulas, and nothing that it declares is out of reach.

* `hasAcceptedName_iff` : what the check of declarations asks of a name;
* `parse_padded_name` : a name that stands alone;
* `exists_compile_declaring` : a rule that declares its parameters;
* `declarable_iff_referable` : names that are declared and names that are referred to.
-/
import Mathlib.Data.List.Nodup
import Tariff.Proofs.Execution
import Tariff.Proofs.Rule.Acceptance
import Tariff.Proofs.Text.Letters

namespace Tariff

/-! ## The check of declarations -/

/-- The check of declarations has nothing to say against the name of a declaration, whatever was
declared before. -/
def ParameterDeclaration.HasAcceptedName (declaration : ParameterDeclaration) : Prop :=
  ∀ before, declaration.flaw? before ≠ some (.badParameterName declaration.name)

theorem hasAcceptedName_iff {declaration : ParameterDeclaration} :
    declaration.HasAcceptedName ↔ isName declaration.name = true := by
  constructor
  · intro h
    by_contra hname
    apply h []
    rw [ParameterDeclaration.flaw?, Bool.eq_false_iff.mpr hname]
    rfl
  · intro hname before hflaw
    cases ParameterDeclaration.hasFlaw_of_flaw? hflaw with
    | badName hbad =>
      rw [hname] at hbad
      cases hbad

/-! ## A name that stands alone -/

/-- A name with white space around it is read as the parameter of this name. -/
theorem parse_padded_name {name left right : String} (hname : isName name = true)
    (hleft : isBlankText left = true) (hright : isBlankText right = true) :
    Formula.parse (left ++ name ++ right) = .ok ⟨left ++ name ++ right, .parameter name⟩ := by
  have hends : (Lexeme.name name).EndsBefore right := by
    refine ⟨hname, ?_⟩
    intro c hc
    rw [Bool.eq_false_iff]
    intro hpart
    have hblank := List.all_eq_true.mp hright c (List.mem_of_mem_head? hc)
    rw [isBlank_eq_false_of_isNamePart hpart] at hblank
    cases hblank
  have hlexemes : Lexeme.ofText (left ++ name ++ right) =
      .ok [⟨0 + left.utf8ByteSize, .name name⟩] := by
    refine ofText_eq_ok_iff.mpr ⟨[⟨left, hleft, .name name⟩], right, hright, ?_, rfl, ?_⟩
    · exact String.append_assoc
    · rw [String.append_empty]
      exact ⟨hends, trivial⟩
  have hblank : isBlankText (left ++ name ++ right) = false := by
    obtain ⟨c, cs, hlist, hstart, -⟩ := exists_cons_of_isName hname
    refine isBlankText_eq_false_iff.mpr ⟨c, ?_, isBlank_eq_false_of_isNameStart hstart⟩
    simp [hlist]
  rw [Formula.parse, hblank, if_neg Bool.false_ne_true, hlexemes]
  rfl

/-- A text that is read as a single parameter has a name for it. -/
theorem isName_of_tokens {text name : String} {formula : Formula}
    (h : Formula.parse text = .ok formula) (htokens : formula.tokens = [.parameter name]) :
    isName name = true :=
  isName_of_parse h (by rw [htokens]; exact List.mem_cons_self)

/-! ## The names of functions -/

/-- What lower case takes into a class that has all letters is in this class. -/
theorem holds_of_toLower {p : Char → Bool} (hletters : ∀ c : Char, c.isAlpha = true → p c = true)
    {c : Char} (h : p c.toLower = true) : p c = true := by
  by_cases hupper : c.isUpper = true
  · exact hletters c (by rw [Char.isAlpha, hupper, Bool.true_or])
  · rwa [Char.toLower_eq_of_not_isUpper hupper] at h

theorem isName_of_toLower {name : String} (h : isName name.toLower = true) :
    isName name = true := by
  have hstart : ∀ c : Char, c.isAlpha = true → isNameStart c = true := by
    intro c hc
    rw [isNameStart, hc, Bool.true_or]
  have hpart : ∀ c : Char, c.isAlpha = true → isNamePart c = true :=
    fun c hc => isNamePart_iff.mpr (Or.inl (hstart c hc))
  rw [isName, toList_toLower] at h
  rw [isName]
  cases hlist : name.toList with
  | nil =>
    rw [hlist] at h
    cases h
  | cons c cs =>
    rw [hlist, List.map_cons, Bool.and_eq_true, List.all_map, List.all_eq_true] at h
    rw [Bool.and_eq_true, List.all_eq_true]
    exact ⟨holds_of_toLower hstart h.1,
      fun other hother => holds_of_toLower hpart (h.2 other hother)⟩

/-- The name of a function, in whatever case its letters are, can name a parameter. -/
theorem isName_of_ofName? {name : String} {f : Builtin} (h : Builtin.ofName? name = some f) :
    isName name = true := by
  apply isName_of_toLower
  rw [Builtin.ofName?_eq_some_iff.mp h]
  cases f <;> decide

/-! ## Rules that declare their parameters -/

theorem nodup_eraseDups (names : List String) : names.eraseDups.Nodup := by
  induction hlength : names.length using Nat.strong_induction_on generalizing names with
  | _ length ih =>
    cases names with
    | nil => exact List.nodup_nil
    | cons first others =>
      subst hlength
      rw [List.eraseDups_cons, List.nodup_cons]
      refine ⟨by simp, ih _ ?_ _ rfl⟩
      exact Nat.lt_succ_of_le (List.length_filter_le _ _)

theorem nodup_parametersOf (tokens : List Token) : (parametersOf tokens).Nodup :=
  (nodup_eraseDups _).perm (List.mergeSort_perm _ _).symm

variable {rule : Rule} {version : Nat} {compiled : CompiledRule}

theorem nodup_requiredParameters (h : rule.compile version = .ok compiled) :
    compiled.requiredParameters.Nodup := by
  obtain ⟨-, expression, condition, -, -, rfl⟩ := compile_eq_ok_iff.mp h
  exact nodup_parametersOf _

/-- What the formulas of a compiled rule refer to are names. -/
theorem isName_of_mem_requiredParameters (h : rule.compile version = .ok compiled) {name : String}
    (hname : name ∈ compiled.requiredParameters) : isName name = true := by
  have hfaithful := faithful_of_compile h
  rcases (hfaithful.parameters name).mp hname with hexpression | ⟨formula, hformula, hcondition⟩
  · exact isName_of_parse hfaithful.expression (mem_parametersOf.mp hexpression)
  · obtain ⟨text, -, hparse⟩ := hfaithful.parse_condition hformula
    exact isName_of_parse hparse (mem_parametersOf.mp hcondition)

/-- A rule that declares parameters of the given names, each with a type and a default, in place of
the parameters that it declares. -/
def Rule.declaring (rule : Rule) (names : List String) (type : String → ParameterType)
    (default : String → ParameterValue) : Rule :=
  { rule with
    parameters := names.map fun name =>
      { name, type := type name, default := some (default name), description := none } }

theorem map_name_declaring (names : List String) (type : String → ParameterType)
    (default : String → ParameterValue) :
    (rule.declaring names type default).parameters.map ParameterDeclaration.name = names := by
  rw [Rule.declaring, List.map_map]
  exact List.map_id names

/-- A rule that is compiled is compiled as well when it declares all the parameters that its
formulas refer to, with any defaults that suit their types. -/
theorem exists_compile_declaring (h : rule.compile version = .ok compiled)
    {type : String → ParameterType} {default : String → ParameterValue}
    (hdefault : ∀ name ∈ compiled.requiredParameters,
      type name = .text ∨ ∃ decimal, (default name).toDecimal? = some decimal) :
    ∃ declared,
      (rule.declaring compiled.requiredParameters type default).compile version = .ok declared ∧
      declared.requiredParameters = compiled.requiredParameters ∧
      ∀ name ∈ compiled.requiredParameters,
        declared.defaults.get? name = some (default name) := by
  obtain ⟨hwellFormed, expression, condition, hexpression, hcondition, hcompiled⟩ :=
    compile_eq_ok_iff.mp h
  have hdeclaring : (rule.declaring compiled.requiredParameters type default).WellFormed := by
    refine ⟨hwellFormed.id, hwellFormed.country, hwellFormed.window, ?_, ?_, ?_⟩
    · refine List.forall_mem_map.mpr ?_
      intro name hname
      exact isName_of_mem_requiredParameters h hname
    · rw [map_name_declaring]
      exact nodup_requiredParameters h
    · refine List.forall_mem_map.mpr ?_
      intro name hname
      refine (hdefault name hname).imp_right ?_
      rintro hnumber value ⟨⟩
      exact hnumber
  refine ⟨_, compile_eq_ok_iff.mpr
    ⟨hdeclaring, expression, condition, hexpression, hcondition, rfl⟩, ?_, ?_⟩
  · rw [hcompiled]
  · intro name hname
    exact (get?_declaredDefaults hdeclaring).mpr ⟨_, List.mem_map_of_mem hname, rfl, rfl⟩

/-- A parameter that a rule declares is within the reach of its formulas: where its name stands
alone, the formula is this parameter, and its default is at hand. -/
theorem exists_compile_reaching (h : rule.compile version = .ok compiled)
    {declaration : ParameterDeclaration} (hmem : declaration ∈ rule.parameters) :
    ∃ reaching, { rule with expression := declaration.name }.compile version = .ok reaching ∧
      reaching.expression.tokens = [.parameter declaration.name] ∧
      reaching.defaults.get? declaration.name = declaration.default := by
  obtain ⟨hwellFormed, -, condition, -, hcondition, -⟩ := compile_eq_ok_iff.mp h
  have hparse := @parse_padded_name declaration.name "" ""
    (hwellFormed.names declaration hmem) rfl rfl
  rw [String.empty_append, String.append_empty] at hparse
  have hreaching : Rule.WellFormed { rule with expression := declaration.name } :=
    ⟨hwellFormed.id, hwellFormed.country, hwellFormed.window, hwellFormed.names,
      hwellFormed.distinct, hwellFormed.defaults⟩
  refine ⟨_, compile_eq_ok_iff.mpr ⟨hreaching, _, condition, hparse, hcondition, rfl⟩, rfl, ?_⟩
  refine Option.ext fun value => ?_
  rw [get?_declaredDefaults hreaching]
  constructor
  · rintro ⟨other, hother, hname, hdefault⟩
    rw [← List.inj_on_of_nodup_map hwellFormed.distinct hother hmem hname]
    exact hdefault
  · intro hdefault
    exact ⟨declaration, hmem, rfl, hdefault⟩

/-! ## The two notions of a name -/

/-- **The names that can be declared are those that can be referred to.** The check of declarations
accepts a name exactly when a text in which it stands alone, with any white space around it, is read
as this parameter and nothing else. It accepts the names of the functions, in any case, and all
parameters of all formulas. So a rule that is compiled can declare, with any types and defaults that
suit them, all the parameters that its formulas refer to; and all that it declares can be referred
to. -/
theorem declarable_iff_referable :
    (∀ declaration : ParameterDeclaration, ∀ left right,
      isBlankText left = true → isBlankText right = true →
      (declaration.HasAcceptedName ↔
        ∃ formula, Formula.parse (left ++ declaration.name ++ right) = .ok formula ∧
          formula.tokens = [.parameter declaration.name])) ∧
    (∀ (declaration : ParameterDeclaration) f, Builtin.ofName? declaration.name = some f →
      declaration.HasAcceptedName) ∧
    (∀ text formula, Formula.parse text = .ok formula →
      ∀ declaration : ParameterDeclaration, declaration.name ∈ formula.parameters →
        declaration.HasAcceptedName) ∧
    ∀ (rule : Rule) version compiled, rule.compile version = .ok compiled →
      (∀ type default,
        (∀ name ∈ compiled.requiredParameters,
          type name = .text ∨ ∃ decimal, (default name).toDecimal? = some decimal) →
        ∃ declared,
          (rule.declaring compiled.requiredParameters type default).compile version =
            .ok declared ∧
          declared.requiredParameters = compiled.requiredParameters ∧
          ∀ name ∈ compiled.requiredParameters,
            declared.defaults.get? name = some (default name)) ∧
      ∀ declaration ∈ rule.parameters,
        ∃ reaching, { rule with expression := declaration.name }.compile version = .ok reaching ∧
          reaching.expression.tokens = [.parameter declaration.name] ∧
          reaching.defaults.get? declaration.name = declaration.default := by
  refine ⟨?_, ?_, ?_, ?_⟩
  · intro declaration left right hleft hright
    rw [hasAcceptedName_iff]
    constructor
    · intro hname
      exact ⟨_, parse_padded_name hname hleft hright, rfl⟩
    · rintro ⟨formula, hparse, htokens⟩
      exact isName_of_tokens hparse htokens
  · intro declaration f hfunction
    exact hasAcceptedName_iff.mpr (isName_of_ofName? hfunction)
  · intro text formula hparse declaration hmem
    exact hasAcceptedName_iff.mpr (isName_of_parse hparse (mem_parametersOf.mp hmem))
  · intro rule version compiled hcompile
    exact ⟨fun type default hdefault => exists_compile_declaring hcompile hdefault,
      fun declaration hmem => exists_compile_reaching hcompile hmem⟩

/-- A parameter that is named like a function, beside a call of this function. -/
theorem declarable_iff_referable_min :
    let least : ParameterDeclaration := ⟨"min", .integer, some (.integer 3), none⟩
    let rule : Rule := { shareRule with expression := "min(turnover, min)", parameters := [least] }
    least.HasAcceptedName ∧
    (∃ formula, Formula.parse "\u3000min\u00a0" = .ok formula ∧
      formula.tokens = [.parameter "min"]) ∧
    ∃ compiled, rule.compile 0 = .ok compiled ∧
      "min" ∈ compiled.requiredParameters ∧
      (∃ declared,
        (rule.declaring compiled.requiredParameters (fun _ => .integer)
          fun _ => .integer 5).compile 0 = .ok declared ∧
        declared.defaults.get? "min" = some (.integer 5)) ∧
      ∃ reaching, { rule with expression := "min" }.compile 0 = .ok reaching ∧
        reaching.expression.tokens = [.parameter "min"] ∧
        reaching.defaults.get? "min" = some (.integer 3) := by
  intro least rule
  obtain ⟨hiff, hfunctions, -, hrules⟩ := declarable_iff_referable
  have haccepted : least.HasAcceptedName := hfunctions least .min (by decide +kernel)
  obtain ⟨compiled, hcompile, htokens⟩ := exists_of_toOption_map
    (show (rule.compile 0).toOption.map (fun compiled => compiled.expression.tokens) =
      some [.parameter "turnover", .parameter "min", .function .min] by decide +kernel)
  have hmin : "min" ∈ compiled.requiredParameters := by
    rw [(faithful_of_compile hcompile).parameters, Formula.parameters, mem_parametersOf, htokens]
    exact Or.inl (by simp)
  obtain ⟨hdeclaring, hreaching⟩ := hrules rule 0 compiled hcompile
  obtain ⟨declared, hdeclared, -, hdefaults⟩ := hdeclaring (fun _ => .integer)
    (fun _ => .integer 5) fun _ _ => Or.inr ⟨_, rfl⟩
  exact ⟨haccepted, (hiff least "\u3000" "\u00a0" (by decide) (by decide)).mp haccepted,
    compiled, hcompile, hmin, ⟨declared, hdeclared, hdefaults "min" hmin⟩,
    hreaching least List.mem_cons_self⟩

end Tariff
