import DeskCalculator.Number.Shortest
import DeskCalculator.Operator

/-!
# Tokens

The words of an expression: numbers, operators and parentheses, each with its text.
-/
namespace DeskCalculator

inductive Token
  | number (v : Float)
  | operator (o : Operator)
  | opening
  | closing
deriving DecidableEq

namespace Token

def chars : Token → List Char
  | number v => Binary64.chars v
  | operator o => o.spelling
  | opening => ['(']
  | closing => [')']

def text (t : Token) : String := String.ofList t.chars

def line (ts : List Token) : String := " ".intercalate (ts.map text)

def ofSymbol? (cs : List Char) : Option Token :=
  if cs = ['('] then some opening
  else if cs = [')'] then some closing
  else (Operator.ofChars? cs).map operator

/-- Whether an operator right after the token has the token as its left operand. -/
def endsOperand : Token → Bool
  | number _ | closing => true
  | operator _ | opening => false

def isNumber : Token → Bool
  | number _ => true
  | _ => false

end Token
end DeskCalculator
