import DeskCalculator.EvalError
import DeskCalculator.Number.Binary64

/-!
# Applying an operator

An operator takes as many arguments, leftmost first, as its arity says, and refuses a zero divisor
and a result that is not finite. `log` is to the base 2.
-/
namespace DeskCalculator.Operator

def checked (o : Operator) (v : Float) : Except EvalError Float :=
  if Binary64.isFinite v then .ok v else .error (.nonFiniteResult o)

def apply (o : Operator) (args : List Float) : Except EvalError Float :=
  match o, args with
  | plus, [a, b] => checked o (a + b)
  | minus, [a, b] => checked o (a - b)
  | times, [a, b] => checked o (a * b)
  | divide, [a, b] => if Binary64.isZero b then .error .divisionByZero else checked o (a / b)
  | power, [a, b] => checked o (a.pow b)
  | log, [x] => checked o (x.log / Float.log 2)
  | sin, [x] => checked o x.sin
  | cos, [x] => checked o x.cos
  | _, _ => .error (.missingOperand o)

theorem isFinite_of_checked {o : Operator} {v w : Float} (h : checked o v = .ok w) :
    Binary64.isFinite w = true := by
  unfold checked at h
  split at h
  · cases h; assumption
  · cases h

theorem eq_of_checked_eq_error {o : Operator} {v : Float} {e : EvalError}
    (h : checked o v = .error e) : e = .nonFiniteResult o := by
  unfold checked at h
  split at h
  · cases h
  · cases h; rfl

/-- Only finite results come out. -/
theorem isFinite_of_apply {o : Operator} {args : List Float} {w : Float}
    (h : o.apply args = .ok w) : Binary64.isFinite w = true := by
  unfold apply at h
  split at h
  case h_4 =>
    split at h
    · cases h
    · exact isFinite_of_checked h
  case h_9 => cases h
  all_goals exact isFinite_of_checked h

/-- With as many arguments as it takes, an operator fails for one of two reasons. -/
theorem cause_of_apply {o : Operator} {args : List Float} {e : EvalError}
    (hlength : args.length = o.arity) (h : o.apply args = .error e) :
    e = .divisionByZero ∨ e = .nonFiniteResult o := by
  match args, hlength with
  | [], hnone => cases o <;> cases hnone
  | [x], hone =>
    cases o with
    | log | sin | cos => exact .inr (eq_of_checked_eq_error h)
    | _ => cases hone
  | [x, y], htwo =>
    cases o with
    | log | sin | cos => cases htwo
    | divide =>
      unfold apply at h
      by_cases hy : Binary64.isZero y = true
      · simp only [if_pos hy] at h
        cases h
        exact .inl rfl
      · simp only [if_neg hy] at h
        exact .inr (eq_of_checked_eq_error h)
    | _ => exact .inr (eq_of_checked_eq_error h)
  | _ :: _ :: _ :: rest, hmore => cases o <;> cases hmore

end DeskCalculator.Operator
