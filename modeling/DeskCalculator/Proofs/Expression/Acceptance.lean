import Mathlib.Data.List.Chain
import DeskCalculator.Evaluation
import DeskCalculator.Proofs.Expression.Placement
import DeskCalculator.Proofs.Postfix.Counts

/-! # What an accepted text can be

The conversion puts operators behind numbers wherever they stood, so a text can have a value without
being an expression. Its tokens are balanced, though, and have one more number than binary operators;
if moreover no two operands are adjacent, every token is in place and the tokens are an expression.
-/
namespace DeskCalculator
open Token

def NoAdjacentOperands (ts : List Token) : Prop :=
  ts.IsChain fun s t => s.endsOperand = true → t.beginsOperand = false

theorem noAdjacentOperands_cons {t : Token} {ts : List Token} :
    NoAdjacentOperands (t :: ts) ↔
      (t.endsOperand = true → ∀ u ∈ ts.head?, u.beginsOperand = false) ∧ NoAdjacentOperands ts := by
  unfold NoAdjacentOperands
  rw [List.isChain_cons]
  constructor
  · rintro ⟨hhead, htail⟩
    refine ⟨?_, htail⟩
    intro ht u hu
    exact hhead u hu ht
  · rintro ⟨hhead, htail⟩
    refine ⟨?_, htail⟩
    intro u hu ht
    exact hhead ht u hu

theorem noAdjacentOperands_of_placed {after last : Bool} {ts : List Token}
    (h : placed after ts = some last) : NoAdjacentOperands ts := by
  induction ts generalizing after with
  | nil => exact List.isChain_nil
  | cons t ts ih =>
    obtain ⟨-, hrest⟩ := placed_of_cons h
    refine noAdjacentOperands_cons.mpr ⟨?_, ih hrest⟩
    intro ht u hu
    cases ts with
    | nil => cases hu
    | cons w ts =>
      obtain rfl := Option.some.inj hu
      obtain ⟨hbegins, -⟩ := placed_of_cons hrest
      rw [ht] at hbegins
      exact hbegins

theorem countP_cons_of_beginsOperand {t : Token} (h : t.beginsOperand = true) (ts : List Token) :
    (t :: ts).countP isNumber = ts.countP isNumber + t.endsOperand.toNat ∧
      (t :: ts).countP isBinary = ts.countP isBinary := by
  cases t with
  | number v => simp [List.countP_cons, isNumber, isBinary, endsOperand]
  | opening => simp [isNumber, isBinary, endsOperand]
  | closing => cases h
  | operator o =>
    have ho : o.arity = 1 := eq_of_beq h
    simp [isNumber, isBinary, endsOperand, ho]

theorem countP_cons_of_not_beginsOperand {t : Token} (h : t.beginsOperand = false)
    (ts : List Token) :
    (t :: ts).countP isNumber = ts.countP isNumber ∧
      (t :: ts).countP isBinary + t.endsOperand.toNat = ts.countP isBinary + 1 := by
  cases t with
  | number v => cases h
  | opening => cases h
  | closing => simp [isNumber, isBinary, endsOperand]
  | operator o =>
    have hne : o.arity ≠ 1 := ne_of_beq_false h
    have ho : o.arity = 2 := o.arity_eq_one_or_two.resolve_left hne
    simp [isNumber, isBinary, endsOperand, ho]

/-- Without adjacent operands there are not too many numbers, and if there are as many as there can
be, all tokens are in place. -/
theorem placed_of_countP (after : Bool) {ts : List Token} (h : NoAdjacentOperands ts)
    (ha : after = true → ∀ t ∈ ts.head?, t.beginsOperand = false) :
    ts.countP isNumber + after.toNat ≤ ts.countP isBinary + 1 ∧
      (ts.countP isNumber + after.toNat = ts.countP isBinary + 1 → placed after ts = some true) := by
  induction ts generalizing after with
  | nil =>
    cases after with
    | false => simp
    | true => simp [placed]
  | cons t ts ih =>
    obtain ⟨hhead, htail⟩ := noAdjacentOperands_cons.mp h
    obtain ⟨hle, hplaced⟩ := ih t.endsOperand htail hhead
    cases ht : t.beginsOperand with
    | true =>
      obtain ⟨hnumber, hbinary⟩ := countP_cons_of_beginsOperand ht ts
      cases after with
      | true =>
        have hf := ha rfl t rfl
        rw [ht] at hf
        cases hf
      | false =>
        rw [hnumber, hbinary, Bool.toNat_false, Nat.add_zero]
        refine ⟨hle, ?_⟩
        intro heq
        rw [placed, if_neg (by simp [ht])]
        exact hplaced heq
    | false =>
      obtain ⟨hnumber, hbinary⟩ := countP_cons_of_not_beginsOperand ht ts
      cases after with
      | false =>
        rw [hnumber, Bool.toNat_false]
        constructor
        · omega
        · intro heq
          omega
      | true =>
        rw [hnumber, Bool.toNat_true]
        constructor
        · omega
        · intro heq
          rw [placed, if_neg (by simp [ht])]
          exact hplaced (by omega)

/-- The tokens of an accepted text are an expression exactly when no two operands are adjacent. -/
theorem isExpression_iff_of_evaluate {s : String} {v : Float} (h : evaluate s = .ok v) :
    ∃ ts, expressionTokens s = .ok ts ∧ (IsExpression ts ↔ NoAdjacentOperands ts) := by
  cases hts : expressionTokens s with
  | error e =>
    rw [evaluate, hts] at h
    cases h
  | ok ts =>
    rw [evaluate, hts] at h
    change (toPostfix ts).bind evalPostfix = .ok v at h
    cases hps : toPostfix ts with
    | error e =>
      rw [hps] at h
      cases h
    | ok ps =>
      rw [hps] at h
      refine ⟨ts, rfl, ?_, ?_⟩
      · rintro ⟨e, he, rfl⟩
        obtain ⟨hs, -, -⟩ := derives_iff_ordered.mp he
        exact noAdjacentOperands_of_placed (placed_tokens hs)
      · intro hadjacent
        have hcount := countP_of_evalPostfix hps h
        have hdepth := balanced_iff_depthAfter.mp (balanced_of_toPostfix hps)
        have hplaced := (placed_of_countP false hadjacent nofun).2 hcount
        exact isExpression_of_placed hplaced hdepth

theorem evaluate_sum_behind_operands : evaluate "(2)(3)+" = .ok 5 := by
  have hvalue : (evaluate "(2)(3)+").toOption = some 5 := by decide +kernel
  cases h : evaluate "(2)(3)+" with
  | error e =>
    rw [h] at hvalue
    cases hvalue
  | ok v =>
    rw [h] at hvalue
    exact congrArg Except.ok (Option.some.inj hvalue)

theorem isExpression_iff_of_sum_behind_operands : evaluate "(2)(3)+" = .ok 5 ∧
    ∃ ts, expressionTokens "(2)(3)+" = .ok ts ∧ (IsExpression ts ↔ NoAdjacentOperands ts) :=
  ⟨evaluate_sum_behind_operands, isExpression_iff_of_evaluate evaluate_sum_behind_operands⟩

/-- Two groups with an operator behind them are accepted. -/
theorem not_forall_isExpression : ¬ ∀ s v, evaluate s = .ok v →
    ∃ ts, expressionTokens s = .ok ts ∧ IsExpression ts := by
  intro h
  obtain ⟨ts, hts, e, he, rfl⟩ := h _ _ evaluate_sum_behind_operands
  obtain ⟨hs, -, -⟩ := derives_iff_ordered.mp he
  have hplaced := placed_tokens hs
  have hfalse : (expressionTokens "(2)(3)+").toOption.bind (placed false) ≠ some true := by
    decide +kernel
  rw [hts] at hfalse
  exact hfalse hplaced

end DeskCalculator
