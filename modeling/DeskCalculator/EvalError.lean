import DeskCalculator.Operator
import DeskCalculator.Text.Quoted

/-!
# Why an expression has no value

One constructor per cause, and the message that names it.
-/
namespace DeskCalculator

inductive EvalError
  /-- A numeral that is not spelled as the number it reads as. -/
  | invalidNumber (lexeme : String)
  /-- Characters that no symbol begins with, or a symbol broken off. -/
  | unknownSymbol (lexeme : String)
  | unmatchedParenthesis
  | missingOperand (o : Operator)
  | divisionByZero
  /-- There is not exactly one value left, or a parenthesis where none can stand. -/
  | malformedExpression
  | nonFiniteResult (o : Operator)
deriving DecidableEq

def EvalError.message : EvalError → String
  | invalidNumber s => "nombre invalide: " ++ Text.quoted s
  | unknownSymbol s => "symbole inconnu: " ++ Text.quoted s
  | unmatchedParenthesis => "parenthèses non appariées"
  | missingOperand o => "opérande manquant pour '" ++ o.symbol ++ "'"
  | divisionByZero => "division par zéro"
  | malformedExpression => "expression mal formée"
  | nonFiniteResult o => "résultat non fini pour '" ++ o.symbol ++ "'"

section map
variable {α β : Type} {f : α → β} {x : Except EvalError α}

theorem map_eq_ok_iff {b : β} : f <$> x = .ok b ↔ ∃ a, x = .ok a ∧ b = f a := by
  cases x <;> simp [Functor.map, Except.map, eq_comm]

theorem map_eq_error_iff {e : EvalError} : f <$> x = .error e ↔ x = .error e := by
  cases x <;> simp [Functor.map, Except.map]

end map

end DeskCalculator
