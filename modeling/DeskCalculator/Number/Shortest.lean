import DeskCalculator.Number.Binary64
import DeskCalculator.Number.Decimal

/-!
# Shortest decimals

Every double has a finite decimal expansion. `shortest` cuts as many of its digits as leave, or
leave plus one, a decimal that still reads as the same double; of the two the nearer one is taken,
and the greater one when both are equally near.
-/
namespace DeskCalculator.Binary64

def expansion (r : Nat) : Decimal :=
  let m := r - lift r * binade
  let e : Int := (lift r : Int) - 1074
  if 0 ≤ e then ⟨m <<< e.toNat, 0⟩ else ⟨m * Nat.pow 5 (-e).toNat, e⟩

def reads (r : Nat) (d : Decimal) : Bool := nearestRank d.value == r

/-- The nearer neighbour of `d` without its last `cut` digits, among those that read as rank `r`. -/
def neighbour? (r : Nat) (d : Decimal) (cut : Nat) : Option Decimal :=
  let unit := Nat.pow 10 cut
  let lower : Decimal := ⟨d.coefficient / unit, d.exponent + cut⟩
  let upper : Decimal := ⟨d.coefficient / unit + 1, d.exponent + cut⟩
  let lowerIsNearer := 2 * (d.coefficient % unit) < unit
  match reads r lower, reads r upper with
  | true, true => some (if lowerIsNearer then lower else upper)
  | true, false => some lower
  | false, true => some upper
  | false, false => none

def cutDigits (r : Nat) (d : Decimal) : Nat → Decimal
  | 0 => d
  | cut + 1 => (neighbour? r d (cut + 1)).getD (cutDigits r d cut)

/-- The decimal of fewest digits that reads as the double of rank `r`, and the nearest of those. -/
def shortest (r : Nat) : Decimal :=
  let d := expansion r
  cutDigits r d ((Nat.toDigits 10 d.coefficient).length - 1)

def chars (v : Float) : List Char :=
  if infinityRank < rank v then ['N', 'a', 'N']
  else
    let body := if rank v = infinityRank then ['i', 'n', 'f'] else (shortest (rank v)).plain
    if isNegative v then '-' :: body else body

def text (v : Float) : String := String.ofList (chars v)

end DeskCalculator.Binary64
