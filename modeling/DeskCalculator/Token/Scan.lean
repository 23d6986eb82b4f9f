import DeskCalculator.EvalError
import DeskCalculator.Token

/-!
# Reading tokens

A text without blanks is cut into lexemes from the left. Digits and points make up numerals, to
which a minus belongs where no operand stands before it; other characters gather until they are a
symbol. A numeral counts only if it is the text of the number it reads as.
-/
namespace DeskCalculator.Token

def isNumeral (c : Char) : Bool := c.isDigit || c == '.'

def numeralValue : List Char → Float
  | '-' :: cs => Binary64.nearest (-(Decimal.ofChars cs).value)
  | cs => Binary64.nearest (Decimal.ofChars cs).value

/-- The text of a number in an expression; both zeros are spelled without a sign. -/
def numeral (v : Float) : List Char := if Binary64.isZero v then ['0'] else Binary64.chars v

def readNumber (lexeme : List Char) : Option Float :=
  let v := numeralValue lexeme
  if numeral v = lexeme then some v else none

/-- Reads a symbol that begins with the characters `held`; fails with what is no symbol. -/
def readSymbol (held : List Char) : List Char → Except (List Char) (Token × List Char)
  | [] => .error held
  | c :: cs =>
    if isNumeral c then .error held
    else
      match ofSymbol? (held ++ [c]) with
      | some t => .ok (t, cs)
      | none => if isSymbolStart (held ++ [c]) then readSymbol (held ++ [c]) cs
        else .error (held ++ [c])

theorem length_of_readSymbol {held cs rest : List Char} {t : Token}
    (h : readSymbol held cs = .ok (t, rest)) : rest.length < cs.length := by
  induction cs generalizing held with
  | nil => cases h
  | cons c cs ih =>
    simp only [readSymbol] at h
    split at h
    · cases h
    · split at h
      · cases h; exact Nat.lt_succ_self _
      · split at h
        · exact Nat.lt_succ_of_lt (ih h)
        · cases h

theorem length_dropWhile_numeral (cs : List Char) :
    (cs.dropWhile isNumeral).length ≤ cs.length :=
  (List.dropWhile_suffix isNumeral).length_le

/-- Reads all tokens; `afterOperand` says whether a minus would have a left operand. -/
def scan (afterOperand : Bool) : List Char → Except EvalError (List Token)
  | [] => .ok []
  | c :: cs =>
    if isNumeral c || (c == '-' && !afterOperand) then
      let lexeme := c :: cs.takeWhile isNumeral
      match readNumber lexeme with
      | none => .error (.invalidNumber (String.ofList lexeme))
      | some v => (number v :: ·) <$> scan true (cs.dropWhile isNumeral)
    else
      match _h : readSymbol [] (c :: cs) with
      | .error lexeme => .error (.unknownSymbol (String.ofList lexeme))
      | .ok (t, rest) => (t :: ·) <$> scan t.endsOperand rest
termination_by cs => cs.length
decreasing_by
  · exact Nat.lt_succ_of_le (length_dropWhile_numeral cs)
  · exact length_of_readSymbol _h

def tokenize (s : String) : Except EvalError (List Token) := scan false s.toList

end DeskCalculator.Token
