import Mathlib.Algebra.Order.Field.Rat
import Mathlib.Data.Rat.Floor
import Mathlib.Tactic.Linarith
import Mathlib.Tactic.NormNum
import DeskCalculator.Number.HalfEven

/-! # Rounding to an integer

`halfEven x` is the one integer within a half of `x` that is even if it is a half away. From this it
follows that no integer is nearer and that only an even one has a rival, that order and sign are kept,
and that a number as near to `halfEven x` as `x` itself is rounded to the same integer.
-/
namespace DeskCalculator

def RoundsTo (x : Rat) (n : Int) : Prop := |x - n| < 1 / 2 ∨ |x - n| = 1 / 2 ∧ n % 2 = 0

theorem RoundsTo.le_half {x : Rat} {n : Int} (h : RoundsTo x n) : |x - n| ≤ 1 / 2 := by
  rcases h with h | h
  · exact h.le
  · exact h.1.le

theorem RoundsTo.even {x : Rat} {n : Int} (h : RoundsTo x n) (hx : |x - n| = 1 / 2) :
    n % 2 = 0 := by
  rcases h with h | h
  · exact absurd hx h.ne
  · exact h.2

theorem roundsTo_halfEven (x : Rat) : RoundsTo x (halfEven x) := by
  have hle := Rat.floor_le x
  have hlt := Rat.lt_floor_add_one x
  push_cast at hlt
  unfold RoundsTo halfEven
  simp only
  split
  case isTrue hlow =>
    left
    rw [abs_of_nonneg (by linarith)]
    linarith
  case isFalse hlow =>
    split
    case isTrue hhigh =>
      left
      push_cast
      rw [abs_of_nonpos (by linarith)]
      linarith
    case isFalse hhigh =>
      have htie : x - x.floor = 1 / 2 := by linarith
      right
      split
      case isTrue heven => exact ⟨by rw [htie]; norm_num, heven⟩
      case isFalse hodd =>
        refine ⟨?_, by omega⟩
        push_cast
        rw [← sub_sub, htie]
        norm_num

/-- Of two different results one would be odd. -/
theorem RoundsTo.le {x : Rat} {m n : Int} (hm : RoundsTo x m) (hn : RoundsTo x n) : n ≤ m := by
  by_contra hlt
  have hcast : (m : Rat) + 1 ≤ n := by exact_mod_cast not_le.mp hlt
  have hxm := abs_le.mp hm.le_half
  have hxn := abs_le.mp hn.le_half
  -- Both are a half away, and one of two neighbours is odd.
  have hsm : x - m = 1 / 2 := by linarith
  have hsn : x - n = -(1 / 2) := by linarith
  have hnext : n = m + 1 := by
    have : (n : Rat) = m + 1 := by linarith
    exact_mod_cast this
  have hm := hm.even (by rw [hsm]; norm_num)
  have hn := hn.even (by rw [hsn]; norm_num)
  omega

theorem halfEven_eq_iff {x : Rat} {n : Int} : halfEven x = n ↔ RoundsTo x n := by
  constructor
  · rintro rfl
    exact roundsTo_halfEven x
  · intro h
    exact Int.le_antisymm (h.le (roundsTo_halfEven x)) ((roundsTo_halfEven x).le h)

/-- Every other integer is farther away, or as far from a number between it and an even result. -/
theorem abs_sub_halfEven_lt_or (x : Rat) {n : Int} (h : n ≠ halfEven x) :
    |x - halfEven x| < |x - n| ∨ |x - halfEven x| = |x - n| ∧ halfEven x % 2 = 0 := by
  have hdistance : (1 : Rat) ≤ |((halfEven x : Int) : Rat) - n| := by
    have := Int.one_le_abs (sub_ne_zero.mpr h.symm)
    exact_mod_cast this
  have htriangle : |((halfEven x : Int) : Rat) - n| ≤ |x - halfEven x| + |x - n| := by
    rw [abs_sub_comm x]
    exact abs_sub_le _ _ _
  rcases roundsTo_halfEven x with hx | ⟨hx, heven⟩
  · left
    linarith
  · rcases lt_or_ge |x - halfEven x| |x - n| with hlt | hge
    · exact .inl hlt
    · exact .inr ⟨by linarith, heven⟩

/-- This tells the result from every other integer. -/
theorem eq_halfEven_iff {x : Rat} {n : Int} : n = halfEven x ↔
    ∀ m : Int, m ≠ n → |x - n| < |x - m| ∨ |x - n| = |x - m| ∧ n % 2 = 0 := by
  constructor
  · rintro rfl m hm
    exact abs_sub_halfEven_lt_or x hm
  · intro h
    by_contra hne
    have hhalf := (roundsTo_halfEven x).le_half
    have hrounds : RoundsTo x n := by
      rcases h _ (Ne.symm hne) with hlt | ⟨heq, heven⟩
      · exact .inl (hlt.trans_le hhalf)
      · exact (heq.trans_le hhalf).lt_or_eq.imp_right (⟨·, heven⟩)
    exact hne (halfEven_eq_iff.mpr hrounds).symm

/-- A distance in steps of a unit. -/
theorem abs_sub_mul_unit {unit : Rat} (hu : 0 < unit) (x k : Rat) :
    |x - k * unit| = |x / unit - k| * unit := by
  rw [← abs_of_pos hu, ← abs_mul, abs_of_pos hu, sub_mul, div_mul_cancel₀ x hu.ne']

/-- The same with the multiples of a unit in the place of the integers. -/
theorem abs_sub_halfEven_mul_lt_or (x : Rat) {unit : Rat} (hu : 0 < unit) {n : Int}
    (h : n ≠ halfEven (x / unit)) :
    |x - halfEven (x / unit) * unit| < |x - n * unit| ∨
      |x - halfEven (x / unit) * unit| = |x - n * unit| ∧ halfEven (x / unit) % 2 = 0 := by
  rw [abs_sub_mul_unit hu, abs_sub_mul_unit hu]
  refine (abs_sub_halfEven_lt_or (x / unit) h).imp ?_ ?_
  · intro hlt
    exact mul_lt_mul_of_pos_right hlt hu
  · rintro ⟨heq, heven⟩
    exact ⟨by rw [heq], heven⟩

/-- Among the multiples of a unit, the one that `halfEven` gives is nearest. -/
theorem abs_sub_halfEven_mul_le (x : Rat) {unit : Rat} (hu : 0 < unit) (n : Int) :
    |x - halfEven (x / unit) * unit| ≤ |x - n * unit| := by
  by_cases h : n = halfEven (x / unit)
  · rw [h]
  · rcases abs_sub_halfEven_mul_lt_or x hu h with hlt | heq
    · exact hlt.le
    · exact heq.1.le

theorem halfEven_mono {x y : Rat} (h : x ≤ y) : halfEven x ≤ halfEven y := by
  by_contra hlt
  have hcast : (halfEven y : Rat) + 1 ≤ halfEven x := by exact_mod_cast not_le.mp hlt
  have hx := abs_le.mp (roundsTo_halfEven x).le_half
  have hy := abs_le.mp (roundsTo_halfEven y).le_half
  obtain rfl : x = y := by linarith
  exact hlt le_rfl

theorem halfEven_nonneg {x : Rat} (h : 0 ≤ x) : 0 ≤ halfEven x := by
  have hzero : ((0 : Int) : Rat) ≤ x := by simpa using h
  exact (halfEven_intCast 0).symm.trans_le (halfEven_mono hzero)

theorem halfEven_neg (x : Rat) : halfEven (-x) = -halfEven x := by
  have hx := roundsTo_halfEven x
  rw [halfEven_eq_iff]
  unfold RoundsTo at hx ⊢
  have habs : |-x - ((-halfEven x : Int) : Rat)| = |x - halfEven x| := by
    push_cast
    rw [← abs_neg (x - halfEven x)]
    congr 1
    ring
  rw [habs]
  exact hx.imp_right fun h => ⟨h.1, by omega⟩

/-- What is no farther from the result than `x` is rounded alike. -/
theorem halfEven_eq_of_abs_le {x y : Rat} (h : |y - halfEven x| ≤ |x - halfEven x|) :
    halfEven y = halfEven x := by
  rw [halfEven_eq_iff]
  rcases roundsTo_halfEven x with hx | ⟨hx, heven⟩
  · exact .inl (h.trans_lt hx)
  · rcases (h.trans hx.le).lt_or_eq with hy | hy
    · exact .inl hy
    · exact .inr ⟨hy, heven⟩

end DeskCalculator
