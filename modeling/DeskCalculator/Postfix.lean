import DeskCalculator.Operator.Apply
import DeskCalculator.Token

/-!
# Postfix form

`toPostfix` moves every operator behind its operands and drops the parentheses. An operator waits on
a stack until one that binds no more strongly follows, so all operators associate to the left.
-/
namespace DeskCalculator

/-- What waits while the tokens are read: operators, and groups not yet closed. -/
inductive Pending
  | operator (o : Operator)
  | group
deriving DecidableEq

/-- Takes the operators of at least the given precedence off the top, down to the last group. -/
def release (precedence : Nat) : List Pending → List Token × List Pending
  | .operator o :: stack =>
    if precedence ≤ o.precedence then
      let (out, left) := release precedence stack
      (.operator o :: out, left)
    else ([], .operator o :: stack)
  | stack => ([], stack)

def convert (stack : List Pending) : List Token → Except EvalError (List Token)
  | [] =>
    match release 0 stack with
    | (out, []) => .ok out
    | _ => .error .unmatchedParenthesis
  | .number v :: ts => (.number v :: ·) <$> convert stack ts
  | .operator o :: ts =>
    let (out, left) := release o.precedence stack
    (out ++ ·) <$> convert (.operator o :: left) ts
  | .opening :: ts => convert (.group :: stack) ts
  | .closing :: ts =>
    match release 0 stack with
    | (out, .group :: left) => (out ++ ·) <$> convert left ts
    | _ => .error .unmatchedParenthesis

def toPostfix (ts : List Token) : Except EvalError (List Token) := convert [] ts

/-- The topmost values of a stack, the deepest first, and the stack below them. -/
def operands : Nat → List Float → Option (List Float × List Float)
  | 0, stack => some ([], stack)
  | _ + 1, [] => none
  | k + 1, v :: stack => (operands k stack).map fun (args, rest) => (args ++ [v], rest)

/-- The stack of values after the tokens, its top first. -/
def runPostfix (stack : List Float) : List Token → Except EvalError (List Float)
  | [] => .ok stack
  | .number v :: ts => runPostfix (v :: stack) ts
  | .operator o :: ts =>
    match operands o.arity stack with
    | none => .error (.missingOperand o)
    | some (args, rest) => do
      let v ← o.apply args
      runPostfix (v :: rest) ts
  | _ :: _ => .error .malformedExpression

theorem runPostfix_append (stack : List Float) (a b : List Token) :
    runPostfix stack (a ++ b) = (runPostfix stack a).bind (runPostfix · b) := by
  induction a generalizing stack with
  | nil => rfl
  | cons t a ih =>
    cases t with
    | number v => exact ih (v :: stack)
    | opening => rfl
    | closing => rfl
    | operator o =>
      simp only [List.cons_append, runPostfix]
      cases operands o.arity stack with
      | none => rfl
      | some p =>
        obtain ⟨args, rest⟩ := p
        dsimp only [bind, Except.bind]
        cases o.apply args with
        | error _ => rfl
        | ok v => exact ih (v :: rest)

/-- An operator takes its operands off the stack and puts its result there. -/
theorem runPostfix_operator_eq_ok_iff {stack final : List Float} {o : Operator} {ts : List Token} :
    runPostfix stack (.operator o :: ts) = .ok final ↔
      ∃ args rest v, operands o.arity stack = some (args, rest) ∧ o.apply args = .ok v ∧
        runPostfix (v :: rest) ts = .ok final := by
  constructor
  · intro h
    simp only [runPostfix] at h
    split at h
    case h_1 => cases h
    case h_2 args rest hop =>
      cases hv : o.apply args with
      | error e =>
        rw [hv] at h
        cases h
      | ok v =>
        rw [hv] at h
        exact ⟨args, rest, v, hop, hv, h⟩
  · rintro ⟨args, rest, v, hop, hv, hrun⟩
    simp only [runPostfix, hop, hv]
    exact hrun

def evalPostfix (ts : List Token) : Except EvalError Float := do
  match ← runPostfix [] ts with
  | [v] => .ok v
  | _ => .error .malformedExpression

theorem evalPostfix_eq_ok_iff {ts : List Token} {v : Float} :
    evalPostfix ts = .ok v ↔ runPostfix [] ts = .ok [v] := by
  unfold evalPostfix
  cases runPostfix [] ts with
  | error e => simp [bind, Except.bind]
  | ok final =>
    match final with
    | [] => simp [bind, Except.bind]
    | [w] => simp [bind, Except.bind]
    | _ :: _ :: _ => simp [bind, Except.bind]

end DeskCalculator
