import DeskCalculator.Proofs.Expression.Stages
import DeskCalculator.Proofs.Postfix.Trees

/-! # Why postfix tokens have no value

A token is at fault when it is a parenthesis, when fewer values wait than the operator takes, or when the
operator fails on the values of the trees before it. An evaluation ends with the error of the first
token at fault, and where there is none with a complaint if not exactly one value is left.
-/
namespace DeskCalculator
open Expression

/-- How many fewer values wait once the token has taken its operands and given its result. -/
def Token.surplus : Token → Nat
  | operator o => o.arity - 1
  | _ => 0

def valuesAfter (ts : List Token) : Int :=
  ts.countP Token.isNumber - (ts.map Token.surplus).sum

inductive AtFault (before : List Token) : Token → EvalError → Prop
  | opening : AtFault before .opening .malformedExpression
  | closing : AtFault before .closing .malformedExpression
  | underflow {o : Operator} (h : valuesAfter before < o.arity) :
      AtFault before (.operator o) (.missingOperand o)
  | failure {o : Operator} {a : List Token} {es : List Expression} {args : List Float}
      {e : EvalError} (hbefore : before = a ++ es.flatMap postorder) (htrees : ∀ e ∈ es, e.IsTree)
      (hargs : es.map value = args.map .ok) (hlength : args.length = o.arity)
      (happly : o.apply args = .error e) (hcause : e = .divisionByZero ∨ e = .nonFiniteResult o) :
      AtFault before (.operator o) e

def Faultless (ts : List Token) : Prop := ∀ a t b e, ts = a ++ t :: b → ¬AtFault a t e

theorem sum_surplus (ts : List Token) : (ts.map Token.surplus).sum = ts.countP Token.isBinary := by
  induction ts with
  | nil => rfl
  | cons t ts ih =>
    rw [List.map_cons, List.sum_cons, ih, List.countP_cons, Nat.add_comm]
    cases t with
    | operator o =>
      rcases o.arity_eq_one_or_two with h | h <;> simp [Token.surplus, Token.isBinary, h]
    | _ => simp [Token.surplus, Token.isBinary]

theorem valuesAfter_of_runPostfix {ps : List Token} {stack : List Float}
    (h : runPostfix [] ps = .ok stack) : valuesAfter ps = stack.length := by
  have := length_of_runPostfix h
  rw [List.length_nil] at this
  rw [valuesAfter, sum_surplus]
  omega

/-- On top of the stack are the values of the last trees in a row. -/
theorem exists_below_of_runPostfix {a : List Token} {es : List Expression} {stack : List Float}
    (h : runPostfix [] (a ++ es.flatMap postorder) = .ok stack) (htrees : ∀ e ∈ es, e.IsTree)
    {args : List Float} (hargs : es.map value = args.map .ok) :
    ∃ below, stack = args.reverse ++ below := by
  obtain ⟨below, -, hrun⟩ := runPostfix_append_eq_ok_iff.mp h
  rw [runPostfix_flatMap_postorder htrees hargs] at hrun
  cases hrun
  exact ⟨below, rfl⟩

section run
variable {ps : List Token} {stack : List Float} {t : Token} {e : EvalError}

theorem atFault_of_runPostfix (h : runPostfix [] ps = .ok stack)
    (ht : runPostfix stack [t] = .error e) : AtFault ps t e := by
  cases t with
  | number v => cases ht
  | opening =>
    cases ht
    exact .opening
  | closing =>
    cases ht
    exact .closing
  | operator o =>
    simp only [runPostfix] at ht
    split at ht
    case h_1 hop =>
      cases ht
      apply AtFault.underflow
      rw [valuesAfter_of_runPostfix h]
      exact_mod_cast operands_eq_none_iff.mp hop
    case h_2 args rest hop =>
      obtain ⟨rfl, hlength⟩ := operands_eq_some_iff.mp hop
      obtain ⟨es, htrees, rfl, hvalues⟩ := exists_trees_of_runPostfix h
      obtain ⟨fs, gs, rfl, -, hgs⟩ := exists_append_of_map_value hvalues
      cases hv : o.apply args with
      | ok v =>
        rw [hv] at ht
        cases ht
      | error e' =>
        rw [hv] at ht
        cases ht
        exact .failure List.flatMap_append (List.forall_mem_append.mp htrees).2 hgs hlength hv
          (Operator.cause_of_apply hlength hv)

/-- After a run to the end of `ps` the next token fails exactly when it is at fault. -/
theorem runPostfix_singleton_eq_error_iff (h : runPostfix [] ps = .ok stack) :
    runPostfix stack [t] = .error e ↔ AtFault ps t e := by
  refine ⟨atFault_of_runPostfix h, ?_⟩
  intro ht
  cases ht with
  | opening => rfl
  | closing => rfl
  | underflow hvalues =>
    rw [valuesAfter_of_runPostfix h] at hvalues
    simp [runPostfix, operands_eq_none_iff.mpr (Int.ofNat_lt.mp hvalues)]
  | failure hbefore htrees hargs hlength happly _ =>
    subst hbefore
    obtain ⟨below, rfl⟩ := exists_below_of_runPostfix h htrees hargs
    simp [runPostfix, operands_eq_some_iff.mpr ⟨rfl, hlength⟩, happly, bind, Except.bind]

/-- A run fails at a token at fault to which it comes, with the error of that token. -/
theorem runPostfix_eq_error_iff : runPostfix [] ps = .error e ↔ ∃ a t b, ps = a ++ t :: b ∧
    (∃ stack, runPostfix [] a = .ok stack) ∧ AtFault a t e := by
  constructor
  · intro h
    induction ps using List.reverseRecOn with
    | nil => cases h
    | append_singleton ps t ih =>
      rw [runPostfix_append] at h
      cases hps : runPostfix [] ps with
      | error e' =>
        rw [hps] at h
        cases h
        obtain ⟨a, u, b, rfl, ha, hu⟩ := ih hps
        exact ⟨a, u, b ++ [t], by simp, ha, hu⟩
      | ok stack =>
        rw [hps] at h
        exact ⟨ps, t, [], rfl, ⟨stack, hps⟩, (runPostfix_singleton_eq_error_iff hps).mp h⟩
  · rintro ⟨a, t, b, rfl, ⟨stack, ha⟩, ht⟩
    have hfail := (runPostfix_singleton_eq_error_iff ha).mpr ht
    have hsplit : a ++ t :: b = (a ++ [t]) ++ b := by simp
    rw [hsplit, runPostfix_append, runPostfix_append, ha]
    simp [Except.bind, hfail]

/-- Without a token at fault a run comes to its end, and conversely. -/
theorem faultless_iff : Faultless ps ↔ ∃ stack, runPostfix [] ps = .ok stack := by
  constructor
  · intro h
    cases hps : runPostfix [] ps with
    | ok stack => exact ⟨stack, rfl⟩
    | error e =>
      obtain ⟨a, t, b, hsplit, -, ht⟩ := runPostfix_eq_error_iff.mp hps
      exact absurd ht (h a t b e hsplit)
  · rintro ⟨stack, h⟩ a t b e rfl ht
    obtain ⟨middle, ha, -⟩ := runPostfix_append_eq_ok_iff.mp h
    have hfail := runPostfix_eq_error_iff.mpr ⟨a, t, b, rfl, ⟨middle, ha⟩, ht⟩
    rw [h] at hfail
    cases hfail

theorem evalPostfix_eq_error_iff_of_runPostfix (h : runPostfix [] ps = .ok stack) :
    evalPostfix ps = .error e ↔ valuesAfter ps ≠ 1 ∧ e = .malformedExpression := by
  rw [evalPostfix, h, valuesAfter_of_runPostfix h]
  rcases stack with _ | ⟨v, _ | ⟨w, stack⟩⟩
  · simp [bind, Except.bind, eq_comm]
  · simp [bind, Except.bind]
  · have htwo : ((v :: w :: stack).length : Int) ≠ 1 := by
      simp only [List.length_cons]
      omega
    simp only [bind, Except.bind, Except.error.injEq]
    exact ⟨fun he => ⟨htwo, he.symm⟩, fun he => he.2.symm⟩

theorem evalPostfix_eq_error_iff : evalPostfix ps = .error e ↔
    (∃ a t b, ps = a ++ t :: b ∧ Faultless a ∧ AtFault a t e) ∨
      Faultless ps ∧ valuesAfter ps ≠ 1 ∧ e = .malformedExpression := by
  simp only [faultless_iff]
  rw [← runPostfix_eq_error_iff]
  cases h : runPostfix [] ps with
  | error e' => simp [evalPostfix, h, bind, Except.bind]
  | ok stack => simp [evalPostfix_eq_error_iff_of_runPostfix h]

end run

/-- Tokens have a value exactly when they write a tree that has it, which is the only tree they write.
Otherwise the error is that of the first token at fault or, if there is none, tells that not exactly one
value is left. What operators do with a wrong number of arguments plays no part in it. -/
theorem evalPostfix_tree_or_first_fault (ps : List Token) :
    (∀ v, evalPostfix ps = .ok v ↔ ∃ e : Expression, e.IsTree ∧ e.postorder = ps ∧
        e.value = .ok v ∧ ∀ f : Expression, f.IsTree → f.postorder = ps → f = e) ∧
      (∀ e, evalPostfix ps = .error e ↔
        (∃ a t b, ps = a ++ t :: b ∧ Faultless a ∧ AtFault a t e) ∨
          Faultless ps ∧ valuesAfter ps ≠ 1 ∧ e = .malformedExpression) ∧
      ∀ apply : Operator → List Float → Except EvalError Float,
        (∀ o args, args.length = o.arity → apply o args = o.apply args) →
          runPostfixWith apply [] ps = runPostfix [] ps := by
  refine ⟨?_, ?_, ?_⟩
  · intro v
    exact evalPostfix_eq_ok_iff_tree
  · intro e
    exact evalPostfix_eq_error_iff
  · intro apply h
    exact runPostfixWith_congr h [] ps

/-- The division comes before the operator that lacks an operand. -/
theorem evalPostfix_first_fault_division :
    evalPostfix [.number 1, .number 0, .operator .divide, .operator .plus] =
      .error .divisionByZero := by
  have hclean : Faultless [.number 1, .number 0] := faultless_iff.mpr ⟨_, rfl⟩
  have hfault : AtFault [.number 1, .number 0] (.operator .divide) .divisionByZero := by
    have htokens : [Token.number 1, .number 0] =
        [] ++ [Expression.number 1, .number 0].flatMap postorder := rfl
    have hargs : [Expression.number 1, .number 0].map value = [1, 0].map .ok := rfl
    exact .failure htokens (by simp [IsTree]) hargs rfl (by decide +kernel) (.inl rfl)
  exact ((evalPostfix_tree_or_first_fault _).2.1 _).mpr
    (.inl ⟨[.number 1, .number 0], _, [.operator .plus], rfl, hclean, hfault⟩)

end DeskCalculator
