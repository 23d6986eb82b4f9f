/-!
# Operators

The closed list of operators: five binary ones and three functions of one argument. A symbol is read
as the operator whose spelling it is; `isSymbolStart` tells which texts can still become a symbol.
-/
namespace DeskCalculator

inductive Operator
  | plus
  | minus
  | times
  | divide
  | power
  | log
  | sin
  | cos
deriving DecidableEq

namespace Operator

def all : List Operator := [plus, minus, times, divide, power, log, sin, cos]

theorem mem_all (o : Operator) : o ∈ all := by cases o <;> decide

def spelling : Operator → List Char
  | plus => ['+']
  | minus => ['-']
  | times => ['*']
  | divide => ['/']
  | power => ['^']
  | log => ['l', 'o', 'g']
  | sin => ['s', 'i', 'n']
  | cos => ['c', 'o', 's']

def symbol (o : Operator) : String := String.ofList o.spelling

/-- Greater binds more strongly; functions go before everything binary. -/
def precedence : Operator → Nat
  | plus | minus => 1
  | times | divide => 2
  | power => 3
  | log | sin | cos => 10

def arity : Operator → Nat
  | log | sin | cos => 1
  | _ => 2

def isFunction (o : Operator) : Bool := o.arity == 1

theorem arity_eq_one_or_two (o : Operator) : o.arity = 1 ∨ o.arity = 2 := by
  cases o <;> decide

theorem precedence_pos (o : Operator) : 1 ≤ o.precedence := by
  cases o <;> decide

theorem precedence_of_lt {o : Operator} (h : 3 < o.precedence) : o.precedence = 10 := by
  cases o with
  | log | sin | cos => rfl
  | _ => exact absurd h (by decide)

theorem precedence_of_arity_one {o : Operator} (h : o.arity = 1) : o.precedence = 10 := by
  cases o with
  | log | sin | cos => rfl
  | _ => cases h

theorem precedence_le_of_arity_two {o : Operator} (h : o.arity = 2) : o.precedence ≤ 3 := by
  cases o with
  | log | sin | cos => cases h
  | _ => decide

def ofChars? (cs : List Char) : Option Operator := all.find? (·.spelling == cs)

def ofSymbol? (s : String) : Option Operator := ofChars? s.toList

theorem ofChars?_spelling (o : Operator) : ofChars? o.spelling = some o := by
  cases o <;> decide

theorem ofChars?_eq_some_iff {cs : List Char} {o : Operator} :
    ofChars? cs = some o ↔ cs = o.spelling := by
  constructor
  · intro h
    have := List.find?_some h
    exact (eq_of_beq this).symm
  · rintro rfl
    exact ofChars?_spelling o

end Operator

def isParenthesis (c : Char) : Bool := c == '(' || c == ')'

def isSymbolStart (cs : List Char) : Bool :=
  Operator.all.any (fun o => cs.isPrefixOf o.spelling) || (cs.length == 1 && cs.all isParenthesis)

end DeskCalculator
