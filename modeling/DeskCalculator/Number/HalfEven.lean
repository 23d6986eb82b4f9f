/-!
# Nearest integers

`halfEven x` is the integer nearest to the rational `x`, and the even one of two that are equally
near. Integers are left as they are.
-/
namespace DeskCalculator

/-- The integer nearest to `x`; a half goes to the even neighbour. -/
def halfEven (x : Rat) : Int :=
  let n := x.floor
  let twice := 2 * (x - n)
  if twice < 1 then n
  else if 1 < twice then n + 1
  else if n % 2 = 0 then n
  else n + 1

theorem halfEven_intCast (n : Int) : halfEven n = n := by
  have h : 2 * ((n : Rat) - n) < 1 := by rw [Rat.sub_self, Rat.mul_zero]; decide +kernel
  simp only [halfEven, Rat.floor_intCast, if_pos h]

end DeskCalculator
