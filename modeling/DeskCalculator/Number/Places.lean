import DeskCalculator.Number.Binary64
import DeskCalculator.Number.Decimal

/-!
# Rounding to decimal places

`roundTo places v` writes `v` with `places` digits after the point, the exact value being rounded half to
even, and reads this text back as the nearest double. A zero loses its sign.
-/
namespace DeskCalculator.Binary64

/-- Text of a finite double with a fixed number of places; a minus also stays before zeros. -/
def fixedChars (places : Nat) (v : Float) : List Char :=
  let n := (halfEven (magnitude (rank v) * (10 : Rat) ^ places)).toNat
  let body := Decimal.fixed places n
  if isNegative v then '-' :: body else body

def ofChars? : List Char → Option Float
  | '-' :: cs => (Decimal.ofChars? cs).map fun d => ofRank true (nearestRank d.value)
  | cs => (Decimal.ofChars? cs).map fun d => ofRank false (nearestRank d.value)

/-- Rounds a finite double to decimal places, unless its text could not be read back, and leaves the
others as they are. -/
def roundTo (places : Nat) (v : Float) : Float :=
  if isFinite v then
    let r := (ofChars? (fixedChars places v)).getD v
    if isZero r then ofRank false 0 else r
  else v

end DeskCalculator.Binary64
