import DeskCalculator.Operator

/-!
# Keys

The keys of the calculator, the text each one adds to the input, its label on the pad, and the
character that stands for it on a keyboard.
-/
namespace DeskCalculator

inductive Key
  /-- Only `0` to `9` have a text. -/
  | digit (d : Nat)
  | point
  | operator (o : Operator)
  | opening
  | closing
  | equals
  | clear
  | delete
deriving DecidableEq

namespace Key

def text : Key → Option String
  | digit d => if d < 10 then some (String.singleton d.digitChar) else none
  | point => some "."
  | operator o => some o.symbol
  | opening => some "("
  | closing => some ")"
  | equals | clear | delete => none

def label : Key → String
  | equals => "="
  | clear => "AC"
  | delete => "DEL"
  | k => k.text.getD ""

def isDigit : Key → Bool
  | digit _ => true
  | _ => false

def isFunction : Key → Bool
  | operator o => o.isFunction
  | _ => false

def ofChar? (c : Char) : Option Key :=
  if c.isDigit then some (digit (c.toNat - '0'.toNat))
  else match c.toLower with
    | '.' => some point
    | '+' => some (operator .plus)
    | '-' => some (operator .minus)
    | '*' => some (operator .times)
    | '/' => some (operator .divide)
    | '^' => some (operator .power)
    | 's' => some (operator .sin)
    | 'c' => some (operator .cos)
    | 'l' => some (operator .log)
    | '(' => some opening
    | ')' => some closing
    | '=' => some equals
    | _ => none

def pad : List (List Key) := [
  [operator .sin, operator .cos, operator .log, clear, delete],
  [digit 7, digit 8, digit 9, opening, closing],
  [digit 4, digit 5, digit 6, operator .times, operator .divide],
  [digit 1, digit 2, digit 3, operator .plus, operator .minus],
  [digit 0, point, operator .power, equals]]

def ofLabel? (s : String) : Option Key := pad.flatten.find? (·.label == s)

end Key
end DeskCalculator
