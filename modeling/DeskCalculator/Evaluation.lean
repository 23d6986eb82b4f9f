import DeskCalculator.Journal
import DeskCalculator.Postfix
import DeskCalculator.Text.Normal
import DeskCalculator.Token.Scan

/-!
# Evaluating an expression

A text is brought to normal form, cut into tokens, put into postfix order and evaluated; the first
stage that fails gives the error. `evaluationRecords` tells how far it came.
-/
namespace DeskCalculator

def expressionTokens (s : String) : Except EvalError (List Token) :=
  Token.tokenize (Text.normalize s)

def evaluate (s : String) : Except EvalError Float := do
  let ts ← expressionTokens s
  let ps ← toPostfix ts
  evalPostfix ps

def evaluationRecords (s : String) : List Record :=
  match expressionTokens s with
  | .error _ => []
  | .ok ts =>
    ⟨.trace, "jetons: " ++ Token.line ts⟩ ::
      match toPostfix ts with
      | .error _ => []
      | .ok ps => [⟨.debug, "rpn de " ++ Text.quoted (Text.normalize s) ++ ": " ++ Token.line ps⟩]

end DeskCalculator
