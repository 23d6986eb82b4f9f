/-!
# Sets of characters

A set of characters is kept as the increasing list of the code points at which membership changes,
so that a run of neighbouring characters costs two numbers.
-/
namespace DeskCalculator.Text

structure CharSet where
  changes : List Nat

/-- A character belongs when an odd number of changes lie at or before it. -/
def CharSet.contains (s : CharSet) (c : Char) : Bool :=
  (s.changes.takeWhile (· ≤ c.toNat)).length % 2 == 1

end DeskCalculator.Text
