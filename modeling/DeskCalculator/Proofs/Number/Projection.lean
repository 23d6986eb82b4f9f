import DeskCalculator.Proofs.Number.Multiples
import DeskCalculator.Proofs.Number.Rounding
import DeskCalculator.Proofs.Number.Unpacked

/-! # Rounding is a monotone projection

Both steps of rounding keep order and change sign with the number, and so does rounding. A rounded double
stays what it is under rounding to no fewer places, the second time starting from a double that may be
neither the multiple nor as near to it as other numbers.
-/
namespace DeskCalculator.Binary64

theorem value_nearest_mono {x y : Rat} (h : x ≤ y) : value (nearest x) ≤ value (nearest y) := by
  have hnonneg : ∀ {x y : Rat}, 0 ≤ x → x ≤ y → value (nearest x) ≤ value (nearest y) := by
    intro x y hx hxy
    rw [value_nearest_of_nonneg hx, value_nearest_of_nonneg (hx.trans hxy)]
    exact magnitude_mono (nearestRank_mono hxy)
  have hzero : value (nearest 0) = 0 := by simp [value_nearest_of_nonneg]
  rcases le_total 0 x with hx | hx
  · exact hnonneg hx h
  · -- Below zero the order turns with the sign.
    have hx' := hnonneg le_rfl (neg_nonneg.mpr hx)
    rw [value_nearest_neg, hzero] at hx'
    rcases le_total 0 y with hy | hy
    · have hy' := hnonneg le_rfl hy
      rw [hzero] at hy'
      linarith
    · have hxy := hnonneg (neg_nonneg.mpr hy) (neg_le_neg h)
      rw [value_nearest_neg, value_nearest_neg] at hxy
      linarith

section rounded
variable {v w : Float} (places : Nat)

theorem roundTo_mono (hv : isFinite v = true) (hw : isFinite w = true) (h : v ≤ w) :
    roundTo places v ≤ roundTo places w := by
  rw [le_iff_value_le (isFinite_roundTo places hv) (isFinite_roundTo places hw),
    roundTo_eq_nearest places hv, roundTo_eq_nearest places hw]
  exact value_nearest_mono (roundedValue_mono places ((le_iff_value_le hv hw).mp h))

theorem value_roundTo_neg (h : isFinite v = true) :
    value (roundTo places (-v)) = -value (roundTo places v) := by
  rw [roundTo_eq_nearest places (isFinite_neg h), value_neg h, roundedValue_neg, value_nearest_neg,
    roundTo_eq_nearest places h]

theorem roundTo_roundTo_of_le {finer : Nat} (hle : places ≤ finer) (hfiner : finer ≤ 17)
    (h : isFinite v = true) : roundTo finer (roundTo places v) = roundTo places v :=
  roundTo_roundTo_of_roundedRank_eq places h
    (roundedRank_roundedRank_of_le hle hfiner (of_decide_eq_true h))

/-- Rounding keeps the order of finite doubles and changes sign with them, and what is rounded stays as it
is when it is rounded to as many places again or, up to seventeen, to more. -/
theorem roundTo_monotone_projection (h : isFinite v = true) :
    (∀ w, isFinite w = true → v ≤ w → roundTo places v ≤ roundTo places w) ∧
      value (roundTo places (-v)) = -value (roundTo places v) ∧
      ∀ finer, finer = places ∨ places ≤ finer ∧ finer ≤ 17 →
        roundTo finer (roundTo places v) = roundTo places v := by
  refine ⟨?_, value_roundTo_neg places h, ?_⟩
  · intro w hw hle
    exact roundTo_mono places h hw hle
  · rintro finer (rfl | ⟨hle, hfiner⟩)
    · exact roundTo_roundTo finer h
    · exact roundTo_roundTo_of_le places hle hfiner h

/-- With two places `0.075` becomes `0.07`, and seventeen places show more of it than that. -/
theorem roundTo_monotone_projection_seventeen :
    isFinite 0.075 = true ∧ isFinite 0.08 = true ∧ (0.075 : Float) ≤ 0.08 ∧
      roundTo 2 0.075 ≤ roundTo 2 0.08 ∧ value (roundTo 2 (-0.075)) = -value (roundTo 2 0.075) ∧
      roundTo 17 (roundTo 2 0.075) = roundTo 2 0.075 := by
  have hv : isFinite 0.075 = true := by decide +kernel
  have hw : isFinite 0.08 = true := by decide +kernel
  have hle : (0.075 : Float) ≤ 0.08 := by decide +kernel
  obtain ⟨hmono, hneg, hfiner⟩ := roundTo_monotone_projection 2 hv
  exact ⟨hv, hw, hle, hmono _ hw hle, hneg, hfiner 17 (.inr ⟨by norm_num, le_rfl⟩)⟩

end rounded

end DeskCalculator.Binary64
