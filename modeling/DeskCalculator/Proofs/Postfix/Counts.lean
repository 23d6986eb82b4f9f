import DeskCalculator.Proofs.Postfix.Balance

/-! # What the conversion keeps

Only balanced tokens are converted, and their postfix form consists of the same numbers and operators.
Running it changes the height of the stack by one for each number and each binary operator, so that one
value is left exactly when there is one more number than there are binary operators.
-/
namespace DeskCalculator

namespace Token

def isBinary : Token → Bool
  | operator o => o.arity == 2
  | _ => false

def isBracket : Token → Bool
  | opening | closing => true
  | _ => false

end Token

def waiting : List Pending → List Token
  | [] => []
  | .operator o :: stack => .operator o :: waiting stack
  | .group :: stack => waiting stack

/-- What is taken off a stack no longer waits on it. -/
theorem waiting_release (precedence : Nat) (stack : List Pending) :
    waiting stack = (release precedence stack).1 ++ waiting (release precedence stack).2 := by
  induction stack with
  | nil => rfl
  | cons p stack ih =>
    cases p with
    | group => rfl
    | operator o =>
      unfold release
      by_cases hle : precedence ≤ o.precedence
      · rw [if_pos hle]
        exact congrArg (Token.operator o :: ·) ih
      · rw [if_neg hle]
        rfl

theorem count_group_release (precedence : Nat) (stack : List Pending) :
    stack.count .group = (release precedence stack).2.count .group := by
  induction stack with
  | nil => rfl
  | cons p stack ih =>
    cases p with
    | group => rfl
    | operator o =>
      unfold release
      by_cases hle : precedence ≤ o.precedence
      · rw [if_pos hle, List.count_cons_of_ne (by simp)]
        exact ih
      · rw [if_neg hle]

/-- Only tokens that close the groups of the stack and their own are converted, and every number and
operator comes out. -/
theorem spec_of_convert {stack : List Pending} {ts ps : List Token}
    (h : convert stack ts = .ok ps) :
    depthAfter (stack.count .group) ts = some 0 ∧
      ps.Perm (waiting stack ++ ts.filter fun t => !t.isBracket) := by
  induction ts generalizing stack ps with
  | nil =>
    simp only [convert] at h
    split at h
    case h_1 out hr =>
      cases h
      rw [waiting_release 0 stack, count_group_release 0 stack, hr]
      exact ⟨rfl, by simp [waiting]⟩
    case h_2 => cases h
  | cons t ts ih =>
    cases t with
    | number v =>
      obtain ⟨qs, hqs, rfl⟩ := map_eq_ok_iff.mp h
      obtain ⟨hd, hp⟩ := ih hqs
      exact ⟨hd, (hp.cons (Token.number v)).trans List.perm_middle.symm⟩
    | operator o =>
      obtain ⟨qs, hqs, rfl⟩ := map_eq_ok_iff.mp h
      obtain ⟨hd, hp⟩ := ih hqs
      rw [List.count_cons_of_ne (by simp), ← count_group_release] at hd
      refine ⟨hd, ?_⟩
      rw [waiting_release o.precedence stack, List.append_assoc]
      exact (hp.trans List.perm_middle.symm).append_left _
    | opening =>
      obtain ⟨hd, hp⟩ := ih h
      rw [List.count_cons_self] at hd
      exact ⟨hd, hp⟩
    | closing =>
      simp only [convert] at h
      split at h
      case h_1 out left hr =>
        obtain ⟨qs, hqs, rfl⟩ := map_eq_ok_iff.mp h
        obtain ⟨hd, hp⟩ := ih hqs
        rw [waiting_release 0 stack, count_group_release 0 stack, hr, List.count_cons_self,
          List.append_assoc]
        exact ⟨hd, hp.append_left out⟩
      case h_2 => cases h

theorem balanced_of_toPostfix {ts ps : List Token} (h : toPostfix ts = .ok ps) : Balanced ts :=
  balanced_iff_depthAfter.mpr (spec_of_convert h).1

theorem perm_of_toPostfix {ts ps : List Token} (h : toPostfix ts = .ok ps) :
    ps.Perm (ts.filter fun t => !t.isBracket) := (spec_of_convert h).2

/-- The operands are what is on top of the stack, in the order in which it was put there. -/
theorem operands_eq_some_iff {k : Nat} {stack args rest : List Float} :
    operands k stack = some (args, rest) ↔ stack = args.reverse ++ rest ∧ args.length = k := by
  induction k generalizing stack args with
  | zero =>
    constructor
    · intro h
      cases h
      exact ⟨rfl, rfl⟩
    · rintro ⟨rfl, h⟩
      rw [List.length_eq_zero_iff.mp h]
      rfl
  | succ k ih =>
    constructor
    · intro h
      cases stack with
      | nil => cases h
      | cons v stack =>
        obtain ⟨⟨args', rest'⟩, hk, he⟩ := Option.map_eq_some_iff.mp h
        cases he
        simpa using ih.mp hk
    · rintro ⟨rfl, hlength⟩
      have hne : args ≠ [] := List.ne_nil_of_length_eq_add_one hlength
      obtain ⟨args, v, rfl⟩ := (List.eq_nil_or_concat args).resolve_left hne
      have hk : operands k (args.reverse ++ rest) = some (args, rest) :=
        ih.mpr ⟨rfl, by simpa using hlength⟩
      simp [operands, hk]

theorem operands_eq_none_iff {k : Nat} {stack : List Float} :
    operands k stack = none ↔ stack.length < k := by
  induction k generalizing stack with
  | zero => simp [operands]
  | succ k ih =>
    cases stack with
    | nil => simp [operands]
    | cons v stack => simp [operands, ih]

theorem length_of_operands {k : Nat} {stack args rest : List Float}
    (h : operands k stack = some (args, rest)) : stack.length = rest.length + k := by
  obtain ⟨rfl, rfl⟩ := operands_eq_some_iff.mp h
  simp [Nat.add_comm]

theorem runPostfix_append_eq_ok_iff {stack final : List Float} {a b : List Token} :
    runPostfix stack (a ++ b) = .ok final ↔
      ∃ middle, runPostfix stack a = .ok middle ∧ runPostfix middle b = .ok final := by
  rw [runPostfix_append]
  cases runPostfix stack a with
  | error e => simp [Except.bind]
  | ok middle => simp [Except.bind]

/-- A number makes the stack one higher, a binary operator one lower, and a function neither. -/
theorem length_of_runPostfix {stack final : List Float} {ps : List Token}
    (h : runPostfix stack ps = .ok final) :
    final.length + ps.countP Token.isBinary = stack.length + ps.countP Token.isNumber := by
  induction ps generalizing stack with
  | nil =>
    cases h
    rfl
  | cons t ps ih =>
    cases t with
    | opening => cases h
    | closing => cases h
    | number v =>
      have := ih h
      simp only [List.countP_cons, Token.isBinary, Token.isNumber, List.length_cons] at this ⊢
      simp only [Bool.false_eq_true, if_false, if_true]
      omega
    | operator o =>
      obtain ⟨args, rest, v, hop, -, hrun⟩ := runPostfix_operator_eq_ok_iff.mp h
      have hlength := length_of_operands hop
      have := ih hrun
      simp only [List.countP_cons, Token.isBinary, Token.isNumber, List.length_cons] at this ⊢
      rcases o.arity_eq_one_or_two with ho | ho
      · simp only [ho] at hlength ⊢
        simp
        omega
      · simp only [ho] at hlength ⊢
        simp
        omega

/-- One value is left only of one number more than there are binary operators. -/
theorem countP_of_evalPostfix {ts ps : List Token} {v : Float} (hps : toPostfix ts = .ok ps)
    (hv : evalPostfix ps = .ok v) :
    ts.countP Token.isNumber = ts.countP Token.isBinary + 1 := by
  have hperm := perm_of_toPostfix hps
  have hnumber : ps.countP Token.isNumber = ts.countP Token.isNumber := by
    rw [hperm.countP_eq, List.countP_filter]
    apply List.countP_congr
    intro t _
    cases t <;> simp [Token.isNumber, Token.isBracket]
  have hbinary : ps.countP Token.isBinary = ts.countP Token.isBinary := by
    rw [hperm.countP_eq, List.countP_filter]
    apply List.countP_congr
    intro t _
    cases t <;> simp [Token.isBinary, Token.isBracket]
  have hlength := length_of_runPostfix (evalPostfix_eq_ok_iff.mp hv)
  simp only [List.length_cons, List.length_nil] at hlength
  omega

end DeskCalculator
