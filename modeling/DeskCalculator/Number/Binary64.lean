import DeskCalculator.Number.HalfEven

/-!
# Doubles as ranks

The nonnegative doubles in increasing order, `+0` first, have the ranks `0, 1, 2, …`: the rank of a
double is its bit pattern without the sign. `magnitude` sends a rank to its exact value, and
`nearestRank` sends a value back to the nearest rank, of two the even one.
-/
namespace DeskCalculator.Binary64

abbrev binade : Nat := 4503599627370496

abbrev infinityRank : Nat := 2047 * binade

abbrev signWeight : Nat := 2048 * binade

def rank (v : Float) : Nat := v.toBits.toNat % signWeight

def isNegative (v : Float) : Bool := signWeight ≤ v.toBits.toNat

def isZero (v : Float) : Bool := rank v == 0

def isFinite (v : Float) : Bool := rank v < infinityRank

def ofRank (negative : Bool) (r : Nat) : Float :=
  Float.ofBits (.ofNat (if negative then signWeight + r else r))

/-- Binades between the one of `r` and the lowest; the two lowest have the same spacing. -/
def lift (r : Nat) : Nat := r / binade - 1

/-- Exact value of the double of rank `r`: a mantissa below `2 ^ 53` times its spacing. -/
def magnitude (r : Nat) : Rat :=
  ((r - lift r * binade : Nat) : Rat) * (2 : Rat) ^ ((lift r : Int) - 1074)

/-- Exact value of a finite double; both zeros have the value `0`. -/
def value (v : Float) : Rat :=
  if isNegative v then -magnitude (rank v) else magnitude (rank v)

/-- The exponent of the greatest power of two that is at most `x`, for positive `x`. -/
def floorLog2 (x : Rat) : Int :=
  let e : Int := (x.num.natAbs.log2 : Int) - x.den.log2
  if (2 : Rat) ^ e ≤ x then e else e - 1

/-- Rank of the double nearest to `x ≥ 0`, of two the even one; infinity past the last midpoint. -/
def nearestRank (x : Rat) : Nat :=
  if x ≤ 0 then 0
  else
    let l := (floorLog2 x + 1022).toNat
    let m := (halfEven (x / (2 : Rat) ^ ((l : Int) - 1074))).toNat
    min (l * binade + m) infinityRank

def nearest (x : Rat) : Float :=
  ofRank (x < 0) (nearestRank (if x < 0 then -x else x))

theorem nearestRank_le (x : Rat) : nearestRank x ≤ infinityRank := by
  simp only [nearestRank]; split <;> omega

end DeskCalculator.Binary64
