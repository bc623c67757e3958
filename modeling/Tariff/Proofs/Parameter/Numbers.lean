/-
# Numbers in parameter bags

A bag that is read from an object of number literals holds, for each name, what its last literal
stands for. Integers are kept as they are. Other literals pass through a double, of which the
shortest digits are kept: these are the digits of the literal again if there are fifteen at most.

* `ParameterBag.ofText_eq` : the bag of an object of numbers;
* `ParameterValue.ofLiteral_of_isInt64`, `ParameterValue.exists_ofLiteral_of_isInteger`,
  `ParameterValue.exists_ofLiteral_of_float` : the parameter for a number;
* `ParameterBag.exists_ofText_numbers` : what a bag holds.
-/
import Tariff.Parameter.Json
import Tariff.Proofs.Json.Number
import Tariff.Proofs.Json.Readers

namespace Tariff

open Decimal (Representable)

/-! ## Objects of numbers -/

/-- The members of an object are number literals with the given names. -/
def AreNumbers (drafts : List (TextLiteral × JsonDraft))
    (members : List (String × NumberLiteral)) : Prop :=
  List.Forall₂ (fun draft member => draft.1.decode = .ok member.1 ∧ draft.2 = .number member.2)
    drafts members

/-- A text is a JSON object of number literals with the given names. -/
def WritesNumbers (text : String) (members : List (String × NumberLiteral)) : Prop :=
  ∃ drafts, JsonDraft.ofText text = (.object drafts .closed, false) ∧ AreNumbers drafts members

variable {text : String} {members : List (String × NumberLiteral)} {l : NumberLiteral}

/-- Whether the members of an object are the given number literals. -/
def areNumbers : List (TextLiteral × JsonDraft) → List (String × NumberLiteral) → Bool
  | [], [] => true
  | (name, .number literal) :: drafts, member :: members =>
    decide (name.decode.toOption = some member.1) && decide (literal = member.2) &&
      areNumbers drafts members
  | _, _ => false

theorem areNumbers_iff {drafts : List (TextLiteral × JsonDraft)} :
    areNumbers drafts members = true ↔ AreNumbers drafts members := by
  constructor
  · intro h
    fun_induction areNumbers drafts members with
    | case1 => exact .nil
    | case2 name literal drafts member members ih =>
      rw [Bool.and_eq_true, Bool.and_eq_true, decide_eq_true_eq, decide_eq_true_eq,
        toOption_eq_some_iff] at h
      obtain ⟨⟨hname, hliteral⟩, hothers⟩ := h
      exact .cons ⟨hname, by rw [hliteral]⟩ (ih hothers)
    | case3 => contradiction
  · intro h
    induction h with
    | nil => rfl
    | @cons draft member drafts members hdraft _ ih =>
      obtain ⟨literal, value⟩ := draft
      obtain ⟨hname, rfl⟩ := hdraft
      rw [areNumbers, Bool.and_eq_true, Bool.and_eq_true, decide_eq_true_eq, decide_eq_true_eq,
        toOption_eq_some_iff]
      exact ⟨⟨hname, rfl⟩, ih⟩

/-- Whether a text is an object of the given number literals. -/
def writesNumbers (text : String) (members : List (String × NumberLiteral)) : Bool :=
  match JsonDraft.ofText text with
  | (.object drafts .closed, false) => areNumbers drafts members
  | _ => false

theorem writesNumbers_iff : writesNumbers text members = true ↔ WritesNumbers text members := by
  constructor
  · intro h
    unfold writesNumbers at h
    split at h
    · next drafts hdraft => exact ⟨drafts, hdraft, areNumbers_iff.mp h⟩
    · contradiction
  · rintro ⟨drafts, hdraft, hdrafts⟩
    rw [writesNumbers, hdraft]
    exact areNumbers_iff.mpr hdrafts

instance : Decidable (WritesNumbers text members) := decidable_of_iff _ writesNumbers_iff

/-- The parameter for a literal. One that is out of range has none; null stands in its place. -/
def ParameterValue.ofLiteral (l : NumberLiteral) : ParameterValue :=
  match l.value? with
  | some number => .ofNumber number
  | none => .null

/-- The entries of a bag for the members of an object. -/
def entriesOf (members : List (String × NumberLiteral)) : List (String × ParameterValue) :=
  members.map fun member => (member.1, .ofLiteral member.2)

theorem read_number {number : JsonNumber} (room : Nat) (h : l.value? = some number) :
    ParameterValue.read room (.number l) = .ok (.ofLiteral l) := by
  rw [ParameterValue.ofLiteral, h, ParameterValue.read, JsonDraft.toJson, h]
  rfl

/-- Each member is read as the parameter for its literal. -/
theorem forall₂_read_numbers {drafts : List (TextLiteral × JsonDraft)}
    (hdrafts : AreNumbers drafts members)
    (hread : ∀ member ∈ members, ∃ number, member.2.value? = some number) (room : Nat) :
    List.Forall₂ (fun draft entry => draft.1.decode = .ok entry.1 ∧
      ParameterValue.read room draft.2 = .ok entry.2) drafts (entriesOf members) := by
  induction hdrafts with
  | nil => exact .nil
  | @cons draft member drafts members hdraft _ ih =>
    obtain ⟨hname, hnumber⟩ := hdraft
    obtain ⟨⟨number, hvalue⟩, hothers⟩ := List.forall_mem_cons.mp hread
    exact .cons ⟨hname, hnumber ▸ read_number room hvalue⟩ (ih hothers)

/-- A bag is read from an object of numbers if none of them is out of range. -/
theorem ParameterBag.ofText_eq (htext : WritesNumbers text members)
    (hread : ∀ member ∈ members, ∃ number, member.2.value? = some number) :
    ParameterBag.ofText text = .ok (Table.ofList (entriesOf members)) := by
  obtain ⟨drafts, hdraft, hdrafts⟩ := htext
  have hmap : JsonReader.map ParameterValue.read maxNesting (.object drafts .closed) =
      .ok (entriesOf members) :=
    JsonReader.map_members (forall₂_read_numbers hdrafts hread 126)
  have hjson : readJson ParameterBag.read text = .ok (Table.ofList (entriesOf members)) := by
    rw [readJson, hdraft]
    show (ParameterBag.read maxNesting (.object drafts .closed) >>= _) = _
    rw [ParameterBag.read, hmap]
    rfl
  rw [ParameterBag.ofText, hjson]
  rfl

/-! ## The parameter for a number -/

namespace NumberLiteral

/-- Literals of an integer of 64 bits with a sign. A negative zero is none of them. -/
def IsInt64 (l : NumberLiteral) (n : Int64) : Prop :=
  l.IsWhole ∧ l.toRat = n.toInt ∧ ¬(l.negative = true ∧ l.digits = 0)

theorem IsInt64.wholeValue_eq {n : Int64} (h : l.IsInt64 n) : l.wholeValue = n.toInt := by
  have hvalue := h.2.1
  rw [toRat_of_isWhole h.1] at hvalue
  exact_mod_cast hvalue

theorem IsInt64.isInteger {n : Int64} (h : l.IsInt64 n) : l.IsInteger := by
  have hvalue := h.wholeValue_eq
  have hlow := n.le_toInt
  have hhigh := n.toInt_lt
  obtain ⟨hwhole, -, hzero⟩ := h
  refine ⟨hwhole, ?_⟩
  rw [digits, hwhole.1, List.append_nil] at hzero
  have h63 : twoPow 63 = 2 ^ 63 := rfl
  have h64 : twoPow 64 = 2 ^ 64 := rfl
  unfold wholeValue at hvalue
  split
  · next hsign =>
    rw [if_pos hsign] at hvalue
    refine ⟨Nat.pos_of_ne_zero fun hdigits => hzero ⟨hsign, hdigits⟩, ?_⟩
    omega
  · next hsign =>
    rw [if_neg hsign] at hvalue
    omega

/-- An integer that is not kept as such is a large natural number. -/
theorem IsInteger.large_of_not_isInt64 (h : l.IsInteger) (hother : ∀ n, ¬l.IsInt64 n) :
    ∃ n : Nat, l.wholeValue = n ∧ 2 ^ 63 ≤ n ∧ n < 2 ^ 64 := by
  obtain ⟨hwhole, hrange⟩ := h
  have h63 : twoPow 63 = 2 ^ 63 := rfl
  have h64 : twoPow 64 = 2 ^ 64 := rfl
  have hnot (hlow : -2 ^ 63 ≤ l.wholeValue) (hhigh : l.wholeValue < 2 ^ 63) :
      l.negative = true ∧ l.digits = 0 := by
    by_contra hzero
    refine hother (Int64.ofInt l.wholeValue) ⟨hwhole, ?_, hzero⟩
    rw [toRat_of_isWhole hwhole, Int64.toInt_ofInt_of_le hlow hhigh]
  have hdigits : l.digits = digitsValue l.whole := by
    rw [digits, hwhole.1, List.append_nil]
  rw [hdigits] at hnot
  unfold wholeValue at hnot ⊢
  cases hsign : l.negative
  · rw [hsign, if_neg Bool.false_ne_true] at hrange hnot
    rw [if_neg Bool.false_ne_true]
    refine ⟨digitsValue l.whole, rfl, ?_, by omega⟩
    by_contra hsmall
    exact Bool.false_ne_true (hnot (by omega) (by omega)).1
  · rw [hsign, if_pos rfl] at hrange hnot
    have hzero := (hnot (by omega) (by omega)).2
    omega

end NumberLiteral

/-- A natural number that is representable is read from its digits. -/
theorem exists_ofText_natural {n : Nat} (h : n < Decimal.limit) :
    ∃ a, Decimal.ofText (toString (n : ℤ)) = .ok a ∧ a.toRat = n := by
  have hwrites : Decimal.Writes (Nat.toDigits 10 n) (Nat.toDigits 10 n) [] := by
    refine ⟨fun c hc => ?_, ?_, Or.inr ⟨rfl, rfl⟩⟩
    · rw [List.append_nil] at hc
      exact Nat.isDigit_of_mem_toDigits (by decide) (by decide) hc
    · rw [List.append_nil]
      exact Nat.toDigits_ne_nil
  have hvalue : numeralValue (Nat.toDigits 10 n) [] = n := by
    rw [numeralValue, List.append_nil, digitsValue_toDigits]
    exact div_one _
  have hrepresentable : Representable (n : ℚ) := by
    have hwhole := @Decimal.representable_of_natAbs_lt n 0 (Nat.zero_le _) h
    rwa [tenPow_cast, Nat.cast_zero, zpow_zero, div_one, Int.cast_natCast] at hwhole
  obtain ⟨a, ha, hrat⟩ := hwrites.exists_readNumeral (hvalue ▸ hrepresentable)
  refine ⟨a, ?_, hrat.trans hvalue⟩
  have hlist : (toString (n : ℤ)).toList = Nat.toDigits 10 n := Nat.toList_repr
  rw [Decimal.ofText, hlist, ha]

theorem fitsSigned_iff {value : ℤ} :
    fitsSigned 64 value = true ↔ -2 ^ 63 ≤ value ∧ value < 2 ^ 63 := by
  have h63 : (twoPow (64 - 1) : ℤ) = 2 ^ 63 := by norm_num [twoPow]
  rw [fitsSigned, Bool.and_eq_true, decide_eq_true_eq, decide_eq_true_eq, h63]

namespace ParameterValue

/-- Integers of 64 bits are kept as integers. -/
theorem ofLiteral_of_isInt64 {n : Int64} (h : l.IsInt64 n) : ofLiteral l = .integer n := by
  have hvalue := h.wholeValue_eq
  have hfits : fitsSigned 64 l.wholeValue = true := by
    rw [hvalue]
    exact fitsSigned_iff.mpr ⟨n.le_toInt, n.toInt_lt⟩
  rw [ofLiteral, NumberLiteral.value?_of_isInteger h.isInteger]
  unfold ofNumber
  dsimp only
  rw [if_pos hfits, hvalue, Int64.ofInt_toInt]

/-- Larger natural numbers are kept as decimals. -/
theorem exists_ofLiteral_of_isInteger (h : l.IsInteger) (hother : ∀ n, ¬l.IsInt64 n) :
    ∃ a, ofLiteral l = .decimal a ∧ a.toRat = l.toRat := by
  obtain ⟨n, hvalue, hlow, hhigh⟩ := h.large_of_not_isInt64 hother
  have hlimit : n < Decimal.limit := Nat.lt_trans hhigh (by decide)
  obtain ⟨a, ha, hrat⟩ := exists_ofText_natural hlimit
  have hfits : ¬fitsSigned 64 (n : ℤ) = true := by
    rw [fitsSigned_iff]
    omega
  refine ⟨a, ?_, ?_⟩
  · rw [ofLiteral, NumberLiteral.value?_of_isInteger h, hvalue]
    unfold ofNumber
    dsimp only
    rw [if_neg hfits, JsonNumber.toText, ha]
  · rw [hrat, NumberLiteral.toRat_of_isWhole h.1, hvalue, Int.cast_natCast]

/-- Of a double, the decimal of its shortest digits is kept. -/
theorem exists_ofLiteral_of_float {x : Float} {p : BinaryParts}
    (hvalue : l.value? = some (.float x)) (hp : BinaryParts.ofFloat? x = some p)
    (h : Representable p.shortestValue) :
    ∃ a, ofLiteral l = .decimal a ∧ a.toRat = p.shortestValue := by
  obtain ⟨a, ha, hrat⟩ := JsonNumber.exists_ofText_floatText hp h
  refine ⟨a, ?_, hrat⟩
  rw [ofLiteral, hvalue]
  unfold ofNumber
  dsimp only
  rw [JsonNumber.toText, ha]

/-- Of short literals, and of integers that are not kept as such, the decimal is kept. -/
theorem exists_ofLiteral (hother : ∀ n, ¬l.IsInt64 n) (h : l.IsInteger ∨ l.IsShort)
    (hrepresentable : Representable l.toRat) :
    ∃ a, ofLiteral l = .decimal a ∧ a.toRat = l.toRat := by
  by_cases hinteger : l.IsInteger
  · exact exists_ofLiteral_of_isInteger hinteger hother
  · obtain ⟨x, p, hvalue, hp, hshortest⟩ := (h.resolve_left hinteger).exists_value? hinteger
    rw [← hshortest] at hrepresentable ⊢
    exact exists_ofLiteral_of_float hvalue hp hrepresentable

end ParameterValue

/-! ## Bags of numbers -/

/-- Short literals are never out of range. -/
theorem NumberLiteral.IsShort.exists_number (h : l.IsShort) : ∃ number, l.value? = some number := by
  by_cases hinteger : l.IsInteger
  · exact ⟨_, value?_of_isInteger hinteger⟩
  · obtain ⟨x, p, hvalue, -⟩ := h.exists_value? hinteger
    exact ⟨_, hvalue⟩

/-- **Short numbers are kept.** A bag that is read from an object of numbers has, for each name, a
parameter for the last literal of that name. Integers of 64 bits with a sign are kept as integers.
Larger natural numbers of 64 bits and short literals are kept as decimals, exactly. In general the
decimal of a literal that is read as a double is that of the shortest digits of the double. -/
theorem ParameterBag.exists_ofText_numbers (htext : WritesNumbers text members)
    (hread : ∀ member ∈ members, member.2.IsShort ∨ member.2.value?.isSome = true) :
    ∃ bag, ParameterBag.ofText text = .ok bag ∧
      ∀ before name literal after, members = before ++ (name, literal) :: after →
        (∀ member ∈ after, member.1 ≠ name) →
          (∀ n, literal.IsInt64 n → bag.get? name = some (.integer n)) ∧
          ((∀ n, ¬literal.IsInt64 n) → literal.IsInteger ∨ literal.IsShort →
            Representable literal.toRat →
              ∃ a, bag.get? name = some (.decimal a) ∧ a.toRat = literal.toRat) ∧
          ∀ x p, literal.value? = some (.float x) → BinaryParts.ofFloat? x = some p →
            Representable p.shortestValue →
              ∃ a, bag.get? name = some (.decimal a) ∧ a.toRat = p.shortestValue := by
  have hnumbers : ∀ member ∈ members, ∃ number, member.2.value? = some number := by
    intro member hmember
    rcases hread member hmember with hshort | hsome
    · exact hshort.exists_number
    · exact Option.isSome_iff_exists.mp hsome
  refine ⟨_, ParameterBag.ofText_eq htext hnumbers, ?_⟩
  intro before name literal after hmembers hlast
  have hget : Table.get? (Table.ofList (entriesOf members)) name = some (.ofLiteral literal) := by
    rw [hmembers, entriesOf, List.map_append, List.map_cons]
    refine Table.get?_ofList_last fun entry hentry => ?_
    obtain ⟨member, hmember, rfl⟩ := List.mem_map.mp hentry
    exact hlast member hmember
  refine ⟨fun n hn => ?_, fun hother hkind hrepresentable => ?_, fun x p hvalue hp h => ?_⟩
  · rw [hget, ParameterValue.ofLiteral_of_isInt64 hn]
  · obtain ⟨a, ha, hrat⟩ := ParameterValue.exists_ofLiteral hother hkind hrepresentable
    exact ⟨a, by rw [hget, ha], hrat⟩
  · obtain ⟨a, ha, hrat⟩ := ParameterValue.exists_ofLiteral_of_float hvalue hp h
    exact ⟨a, by rw [hget, ha], hrat⟩

/-- An integer and a short literal. -/
theorem ParameterBag.exists_ofText_numbers_rate : ∃ bag a,
    ParameterBag.ofText "\x7b\"n\":7,\"rate\":0.19\x7d" = .ok bag ∧
      bag.get? "n" = some (.integer 7) ∧ bag.get? "rate" = some (.decimal a) ∧
      a.toRat = 19 / 100 := by
  let seven : NumberLiteral := ⟨false, ['7'], [], none⟩
  let rate : NumberLiteral := ⟨false, ['0'], ['1', '9'], none⟩
  have hseven : seven.IsShort :=
    ⟨by decide +kernel, by decide +kernel, by decide +kernel, by decide +kernel⟩
  have hrate : rate.IsShort :=
    ⟨by decide +kernel, by decide +kernel, by decide +kernel, by decide +kernel⟩
  have hinteger : seven.IsInt64 7 := by
    refine ⟨⟨rfl, rfl⟩, ?_, by decide +kernel⟩
    rw [NumberLiteral.toRat_of_isWhole ⟨rfl, rfl⟩]
    rfl
  have hvalue : rate.toRat = 19 / 100 := by
    show ((19 : Nat) : ℚ) * 10 ^ (-2 : ℤ) = 19 / 100
    norm_num
  have hrepresentable : Representable rate.toRat := by
    have hdecimal := @Decimal.representable_of_natAbs_lt 19 2 (by decide) (by decide)
    rw [hvalue]
    rwa [tenPow_cast, Int.cast_ofNat] at hdecimal
  have htext : WritesNumbers "\x7b\"n\":7,\"rate\":0.19\x7d" [("n", seven), ("rate", rate)] := by
    decide +kernel
  have hshort : ∀ member ∈ [("n", seven), ("rate", rate)],
      member.2.IsShort ∨ member.2.value?.isSome = true :=
    List.forall_mem_cons.mpr ⟨Or.inl hseven, List.forall_mem_singleton.mpr (Or.inl hrate)⟩
  obtain ⟨bag, hbag, hvalues⟩ := ParameterBag.exists_ofText_numbers htext hshort
  have hn := (hvalues [] "n" seven [("rate", rate)] rfl (by decide)).1 7 hinteger
  obtain ⟨a, ha, hrat⟩ := (hvalues [("n", seven)] "rate" rate [] rfl (by simp)).2.1
    (fun n hn => List.cons_ne_nil _ _ hn.1.1) (Or.inr hrate) hrepresentable
  exact ⟨bag, a, hbag, hn, ha, hrat.trans hvalue⟩

/-- The decimal of a parameter that is kept as one. -/
def ParameterValue.asDecimal? : ParameterValue → Option Decimal
  | .decimal a => some a
  | _ => none

theorem ParameterValue.eq_of_asDecimal? {value : ParameterValue} {a : Decimal}
    (h : value.asDecimal? = some a) : value = .decimal a := by
  cases value <;> cases h
  rfl

/-- Nineteen digits are too many: a decimal has room for them, but other ones are kept. -/
theorem ParameterBag.ofText_nineteen_digits : ∃ text literal bag a,
    text = "\x7b\"rate\":0.1234567890123456789\x7d" ∧ WritesNumbers text [("rate", literal)] ∧
      literal.toRat = 1234567890123456789 / 10 ^ 19 ∧ Representable literal.toRat ∧
      ParameterBag.ofText text = .ok bag ∧ bag.get? "rate" = some (.decimal a) ∧
      a.toRat ≠ literal.toRat := by
  let literal : NumberLiteral := ⟨false, ['0'], "1234567890123456789".toList, none⟩
  have hvalue : literal.toRat = 1234567890123456789 / 10 ^ 19 := by
    show ((1234567890123456789 : Nat) : ℚ) * 10 ^ (-19 : ℤ) = _
    norm_num
  have hrepresentable : Representable literal.toRat := by
    have hdecimal := @Decimal.representable_of_natAbs_lt 1234567890123456789 19 (by decide)
      (by decide)
    rw [hvalue]
    rwa [tenPow_cast, Int.cast_ofNat] at hdecimal
  have htext : WritesNumbers "\x7b\"rate\":0.1234567890123456789\x7d" [("rate", literal)] := by
    decide +kernel
  let kept : Decimal := ⟨false, 12345678901234568, 17, by decide, by decide⟩
  have hkept : ((ParameterBag.ofText "\x7b\"rate\":0.1234567890123456789\x7d").toOption.bind
      fun bag => (bag.get? "rate").bind ParameterValue.asDecimal?) = some kept := by decide +kernel
  have hdiffers : kept.toRat ≠ literal.toRat := by
    have hrat : kept.toRat = ((12345678901234568 : ℤ) : ℚ) / ((10 ^ 17 : Nat) : ℚ) := rfl
    rw [hrat, hvalue]
    norm_num
  obtain ⟨bag, hbag, hrate⟩ := Option.bind_eq_some_iff.mp hkept
  obtain ⟨value, hget, hvalue'⟩ := Option.bind_eq_some_iff.mp hrate
  have hdecimal := ParameterValue.eq_of_asDecimal? hvalue'
  exact ⟨_, literal, bag, kept, rfl, htext, hvalue, hrepresentable, toOption_eq_some_iff.mp hbag,
    hdecimal ▸ hget, hdiffers⟩

end Tariff
