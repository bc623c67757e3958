/-
# Formulas are evaluated exactly

Away from rounding, formulas compute with rational numbers. A tree of literals, parameters and
operations other than quotients, powers and roots has an exact value, and if the exact values of all
its parts are representable, then the evaluation of its postfix form succeeds with just this value.

* `UnaryOperation.apply_exact`, `BinaryOperation.apply_exact` : what operations do;
* `Tree.evaluate_exact` : what trees do;
* `evaluateTokens_exact` : what postfix lists do.
-/
import Tariff.Proofs.Decimal.Numeral
import Tariff.Proofs.Formula.Evaluation

namespace Tariff

open Decimal (Representable)

/-! ## Exact values -/

/-- The exact result of an operation on one number; roots are left out. -/
def UnaryOperation.exact? (op : UnaryOperation) (q : ℚ) : Option ℚ :=
  match op with
  | .negate => some (-q)
  | .abs => some |q|
  | .round => some (nearestEven q)
  | .floor => some ⌊q⌋
  | .ceiling => some ⌈q⌉
  | .sqrt => none

/-- The exact result of an operation on two numbers; quotients and powers are left out. -/
def BinaryOperation.exact? (op : BinaryOperation) (p q : ℚ) : Option ℚ :=
  match op with
  | .arithmetic .add => some (p + q)
  | .arithmetic .subtract => some (p - q)
  | .arithmetic .multiply => some (p * q)
  | .arithmetic .divide => none
  | .arithmetic .power => none
  | .min => some (Min.min p q)
  | .max => some (Max.max p q)

namespace Tree

/-- The exact value of a tree, given the numbers that its parameters stand for. -/
def exactValue? (values : String → ℚ) : Tree → Option ℚ
  | .number text => Decimal.literalValue? text
  | .parameter name => some (values name)
  | .unary op operand => (operand.exactValue? values).bind op.exact?
  | .binary op left right => do
    let p ← left.exactValue? values
    let q ← right.exactValue? values
    op.exact? p q
  | .choice condition positive otherwise => do
    let c ← condition.exactValue? values
    let p ← positive.exactValue? values
    let q ← otherwise.exactValue? values
    return if 0 < c then p else q

/-- The parts of a tree: the tree itself and the parts of its operands. -/
def parts : Tree → List Tree
  | .number text => [.number text]
  | .parameter name => [.parameter name]
  | .unary op operand => .unary op operand :: operand.parts
  | .binary op left right => .binary op left right :: (left.parts ++ right.parts)
  | .choice condition positive otherwise =>
    .choice condition positive otherwise :: (condition.parts ++ positive.parts ++ otherwise.parts)

/-- A tree of literals, parameters and operations other than quotients, powers and roots; a literal
is made of digits and at most one point. -/
inductive Elementary : Tree → Prop where
  | number {text : String} {whole fraction : List Char}
      (writes : Decimal.Writes text.toList whole fraction) : Elementary (.number text)
  | parameter (name : String) : Elementary (.parameter name)
  | unary {op : UnaryOperation} {operand : Tree} (root : op ≠ .sqrt)
      (operand_elementary : Elementary operand) : Elementary (.unary op operand)
  | binary {op : BinaryOperation} {left right : Tree} (quotient : op ≠ .arithmetic .divide)
      (power : op ≠ .arithmetic .power) (left_elementary : Elementary left)
      (right_elementary : Elementary right) : Elementary (.binary op left right)
  | choice {condition positive otherwise : Tree} (condition_elementary : Elementary condition)
      (positive_elementary : Elementary positive) (otherwise_elementary : Elementary otherwise) :
      Elementary (.choice condition positive otherwise)

end Tree

/-! ## Operations -/

theorem UnaryOperation.apply_exact {op : UnaryOperation} (hroot : op ≠ .sqrt) (a : Decimal) :
    ∃ result, op.apply a = .ok result ∧ op.exact? a.toRat = some result.toRat := by
  cases op with
  | negate => exact ⟨a.neg, rfl, congrArg some a.toRat_neg.symm⟩
  | abs => exact ⟨a.abs, rfl, congrArg some a.toRat_abs.symm⟩
  | round => exact ⟨a.round, rfl, congrArg some a.toRat_round.symm⟩
  | floor => exact ⟨a.floor, rfl, congrArg some a.toRat_floor.symm⟩
  | ceiling => exact ⟨a.ceiling, rfl, congrArg some a.toRat_ceiling.symm⟩
  | sqrt => exact absurd rfl hroot

theorem BinaryOperation.apply_exact {op : BinaryOperation} (hquotient : op ≠ .arithmetic .divide)
    (hpower : op ≠ .arithmetic .power) {a b : Decimal}
    (h : ∀ q, op.exact? a.toRat b.toRat = some q → Representable q) :
    ∃ result, op.apply a b = .ok result ∧ op.exact? a.toRat b.toRat = some result.toRat := by
  -- The result of a checked operation is there, and it is exact.
  cases op with
  | arithmetic op =>
    cases op with
    | add =>
      obtain ⟨sum, hsum, hvalue⟩ := Decimal.add?_of_representable (h _ rfl)
      refine ⟨sum, ?_, congrArg some hvalue.symm⟩
      simp only [BinaryOperation.apply, InfixOperator.apply, hsum]
    | subtract =>
      obtain ⟨difference, hdifference, hvalue⟩ := Decimal.sub?_of_representable (h _ rfl)
      refine ⟨difference, ?_, congrArg some hvalue.symm⟩
      simp only [BinaryOperation.apply, InfixOperator.apply, hdifference]
    | multiply =>
      obtain ⟨product, hproduct, hvalue⟩ := Decimal.mul?_of_representable (h _ rfl)
      refine ⟨product, ?_, congrArg some hvalue.symm⟩
      simp only [BinaryOperation.apply, InfixOperator.apply, hproduct]
    | divide => exact absurd rfl hquotient
    | power => exact absurd rfl hpower
  | min => exact ⟨a.min b, rfl, congrArg some (a.toRat_min b).symm⟩
  | max => exact ⟨a.max b, rfl, congrArg some (a.toRat_max b).symm⟩

/-- A choice by the sign of a decimal is one by the sign of its number. -/
theorem toRat_chooseBy (condition positive otherwise : Decimal) :
    (chooseBy condition positive otherwise).toRat =
      if 0 < condition.toRat then positive.toRat else otherwise.toRat := by
  unfold chooseBy
  by_cases h : 0 < condition.toRat
  · rw [if_pos h, if_pos ((Decimal.isPositive_iff condition).mpr h)]
  · rw [if_neg h, if_neg (mt (Decimal.isPositive_iff condition).mp h)]

/-! ## Trees -/

namespace Tree

variable {source : ParameterSource} {values : String → ℚ}

/-- **Trees compute with rational numbers**, wherever their tokens stand. -/
theorem evaluate_exact {tree : Tree} (helementary : tree.Elementary)
    (hsource : ∀ name, .parameter name ∈ tree.postorder →
      ∃ value, resolve source name = .ok value ∧ value.toRat = values name)
    (hparts : ∀ part ∈ tree.parts, ∀ q, part.exactValue? values = some q → Representable q)
    (index : Nat) :
    ∃ result, tree.evaluate source index = .ok result ∧
      tree.exactValue? values = some result.toRat := by
  induction helementary generalizing index with
  | @number text whole fraction hwrites =>
    obtain ⟨q, hq⟩ : ∃ q, Decimal.literalValue? text = some q :=
      ⟨_, Decimal.literalValue?_eq_some_iff.mpr ⟨whole, fraction, hwrites, rfl⟩⟩
    obtain ⟨value, hvalue, hrat⟩ :=
      Decimal.ofText_of_literalValue? hq (hparts _ List.mem_cons_self q hq)
    refine ⟨value, ?_, by rw [exactValue?, hq, hrat]⟩
    rw [evaluate, literal, hvalue]
  | parameter name =>
    obtain ⟨value, hvalue, hrat⟩ := hsource name List.mem_cons_self
    exact ⟨value, hvalue, by rw [exactValue?, hrat]⟩
  -- Elsewhere the operands have exact values, and then the operation is exact on these.
  | @unary op operand hroot _ ih =>
    simp only [postorder, List.mem_append] at hsource
    obtain ⟨a, ha, hrat⟩ := ih (fun name hname => hsource name (Or.inl hname))
      (fun part hpart => hparts part (List.mem_cons_of_mem _ hpart)) index
    obtain ⟨result, hresult, hexact⟩ := op.apply_exact hroot a
    refine ⟨result, ?_, by rw [exactValue?, hrat, Option.bind_some, hexact]⟩
    rw [evaluate, ha]
    exact congrArg (Except.mapError RuleError.arithmetic) hresult
  | @binary op left right hquotient hpower _ _ ihl ihr =>
    simp only [postorder, List.mem_append] at hsource
    obtain ⟨a, ha, hleft⟩ := ihl (fun name hname => hsource name (Or.inl (Or.inl hname)))
      (fun part hpart => hparts part (List.mem_cons_of_mem _ (List.mem_append_left _ hpart))) index
    obtain ⟨b, hb, hright⟩ := ihr (fun name hname => hsource name (Or.inl (Or.inr hname)))
      (fun part hpart => hparts part (List.mem_cons_of_mem _ (List.mem_append_right _ hpart)))
      (index + left.postorder.length)
    have hvalue : (binary op left right).exactValue? values = op.exact? a.toRat b.toRat := by
      rw [exactValue?, hleft, hright]
      rfl
    have hrepresentable := hparts _ List.mem_cons_self
    rw [hvalue] at hrepresentable
    obtain ⟨result, hresult, hexact⟩ := op.apply_exact hquotient hpower hrepresentable
    refine ⟨result, ?_, hvalue.trans hexact⟩
    rw [evaluate, ha]
    show (evaluate source _ right >>= fun second => _) = _
    rw [hb]
    exact congrArg (Except.mapError RuleError.arithmetic) hresult
  | @choice condition positive otherwise _ _ _ ihc ihp iho =>
    simp only [postorder, List.mem_append, or_assoc] at hsource
    simp only [parts, List.mem_cons, List.mem_append, or_assoc] at hparts
    obtain ⟨c, hc, hcondition⟩ := ihc (fun name hname => hsource name (Or.inl hname))
      (fun part hpart => hparts part (Or.inr (Or.inl hpart))) index
    obtain ⟨a, ha, hpositive⟩ := ihp (fun name hname => hsource name (Or.inr (Or.inl hname)))
      (fun part hpart => hparts part (Or.inr (Or.inr (Or.inl hpart))))
      (index + condition.postorder.length)
    obtain ⟨b, hb, hotherwise⟩ := iho
      (fun name hname => hsource name (Or.inr (Or.inr (Or.inl hname))))
      (fun part hpart => hparts part (Or.inr (Or.inr (Or.inr hpart))))
      (index + condition.postorder.length + positive.postorder.length)
    refine ⟨chooseBy c a b, ?_, ?_⟩
    · rw [evaluate, hc]
      show (evaluate source _ positive >>= fun second => _) = _
      rw [ha]
      show (evaluate source _ otherwise >>= fun third => _) = _
      rw [hb]
      rfl
    · rw [exactValue?, hcondition, hpositive, hotherwise, toRat_chooseBy]
      rfl

end Tree

/-- **Formulas are evaluated exactly, away from rounding.** Let a tree be built from literals,
parameters, sums, differences, products, negations, `min`, `max`, `abs`, `round`, `floor`, `ceiling`
and choices, and let its parameters be read as the numbers that they stand for. Then the tree and
all its parts have exact values. If decimals stand for these, the evaluation of the postfix form
succeeds, and its result stands for the exact value of the tree. -/
theorem evaluateTokens_exact {source : ParameterSource} {values : String → ℚ} {tree : Tree}
    (helementary : tree.Elementary)
    (hsource : ∀ name, .parameter name ∈ tree.postorder →
      ∃ value, resolve source name = .ok value ∧ value.toRat = values name)
    (hparts : ∀ part ∈ tree.parts, ∀ q, part.exactValue? values = some q → Representable q) :
    ∃ result, evaluateTokens source tree.postorder = .ok result ∧
      tree.exactValue? values = some result.toRat := by
  rw [evaluateTokens_postorder]
  exact Tree.evaluate_exact helementary hsource hparts 0

/-- The largest decimal and `-3.0` are added exactly, although the largest coefficient leaves no
room for another digit behind the point; `-2.5` is rounded to the even neighbour. -/
theorem evaluateTokens_exact_largest :
    ∃ result, evaluateTokens (fun _ => some (.text "-2.5"))
        (Tree.binary (.arithmetic .add) (.number "79228162514264337593543950335")
          (.binary (.arithmetic .subtract) (.unary .round (.parameter "x"))
            (.number "1.0"))).postorder = .ok result ∧
      result.toRat = 79228162514264337593543950332 := by
  let largest : Tree := .number "79228162514264337593543950335"
  let rounded : Tree := .unary .round (.parameter "x")
  let difference : Tree := .binary (.arithmetic .subtract) rounded (.number "1.0")
  let values : String → ℚ := fun _ => -5 / 2
  have hlargest : Decimal.Writes "79228162514264337593543950335".toList
      "79228162514264337593543950335".toList [] :=
    ⟨List.all_eq_true.mp (by decide), by decide, Or.inr ⟨by decide, rfl⟩⟩
  have hone : Decimal.Writes "1.0".toList ['1'] ['0'] :=
    ⟨List.all_eq_true.mp (by decide), by decide, Or.inl (by decide)⟩
  have hdifference : difference.Elementary :=
    .binary (by decide) (by decide) (.unary (by decide) (.parameter "x")) (.number hone)
  have hrepresentable : ∀ (part : Tree) (a : Decimal), part.exactValue? values = some a.toRat →
      ∀ q, part.exactValue? values = some q → Representable q :=
    fun part a ha q hq => ⟨a, Option.some.inj (ha.symm.trans hq)⟩
  have hread : resolve (fun _ => some (.text "-2.5")) "x" =
      .ok ⟨true, 25, 1, by decide, by decide⟩ := by decide +kernel
  obtain ⟨result, hresult, hvalue⟩ := @evaluateTokens_exact
    (fun _ => some (.text "-2.5")) values (.binary (.arithmetic .add) largest difference)
    (.binary (by decide) (by decide) (.number hlargest) hdifference)
    (fun _ _ => ⟨_, hread, by decide +kernel⟩)
    (by
      simp only [Tree.parts, largest, difference, rounded, List.cons_append, List.nil_append,
        List.forall_mem_cons]
      refine ⟨hrepresentable _ ⟨false, 79228162514264337593543950332, 0, by decide, by decide⟩ ?_,
        hrepresentable _ ⟨false, 79228162514264337593543950335, 0, by decide, by decide⟩ ?_,
        hrepresentable _ ⟨true, 3, 0, by decide, by decide⟩ ?_,
        hrepresentable _ ⟨true, 2, 0, by decide, by decide⟩ ?_,
        hrepresentable _ ⟨true, 25, 1, by decide, by decide⟩ ?_,
        hrepresentable _ ⟨false, 1, 0, by decide, by decide⟩ ?_,
        List.forall_mem_nil _⟩
      all_goals decide +kernel)
  exact ⟨result, hresult, Option.some.inj (hvalue.symm.trans (by decide +kernel))⟩

end Tariff
