import DeskCalculator.Postfix

/-!
# Expressions as trees

The grammar behind the tokens: numbers, groups in parentheses, functions before their operand and
binary operators between two. `tokens` writes a tree as it is typed and `postorder` as it is
evaluated; its value takes the operands from left to right, and the first error met is the error.
-/
namespace DeskCalculator

inductive Expression
  | number (v : Float)
  | group (e : Expression)
  | call (o : Operator) (argument : Expression)
  | binary (o : Operator) (left right : Expression)
deriving DecidableEq

namespace Expression

def tokens : Expression → List Token
  | number v => [.number v]
  | group e => .opening :: e.tokens ++ [.closing]
  | call o e => .operator o :: e.tokens
  | binary o l r => l.tokens ++ .operator o :: r.tokens

def text (e : Expression) : String := String.join (e.tokens.map Token.text)

def postorder : Expression → List Token
  | number v => [.number v]
  | group e => e.postorder
  | call o e => e.postorder ++ [.operator o]
  | binary o l r => l.postorder ++ r.postorder ++ [.operator o]

def value : Expression → Except EvalError Float
  | number v => .ok v
  | group e => e.value
  | call o e => do o.apply [← e.value]
  | binary o l r => do
    let x ← l.value
    let y ← r.value
    o.apply [x, y]

def Saturated : Expression → Prop
  | number _ => True
  | group e => e.Saturated
  | call o e => o.arity = 1 ∧ e.Saturated
  | binary o l r => o.arity = 2 ∧ l.Saturated ∧ r.Saturated

/-- Evaluating the postorder pushes the value of the tree. -/
theorem runPostfix_postorder (e : Expression) (h : e.Saturated) (stack : List Float)
    (ts : List Token) :
    runPostfix stack (e.postorder ++ ts) = e.value.bind fun v => runPostfix (v :: stack) ts := by
  induction e generalizing stack ts with
  | number v => rfl
  | group e ih => exact ih h stack ts
  | call o e ih =>
    rw [postorder, List.append_assoc, ih h.2, value]
    cases e.value with
    | error _ => rfl
    | ok v => simp [Except.bind, bind, runPostfix, operands, h.1]
  | binary o l r ihl ihr =>
    rw [postorder, List.append_assoc, List.append_assoc, ihl h.2.1, value]
    cases l.value with
    | error _ => rfl
    | ok x =>
      simp only [Except.bind, bind, ihr h.2.2]
      cases r.value with
      | error _ => rfl
      | ok y => simp [runPostfix, operands, h.1, bind, Except.bind]

theorem evalPostfix_postorder (e : Expression) (h : e.Saturated) :
    evalPostfix e.postorder = e.value := by
  have := runPostfix_postorder e h [] []
  rw [List.append_nil] at this
  rw [evalPostfix, this]
  cases e.value <;> rfl

end Expression
end DeskCalculator
