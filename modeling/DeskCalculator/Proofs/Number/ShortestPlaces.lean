import DeskCalculator.Proofs.Number.FifteenDigits
import DeskCalculator.Proofs.Number.Fraction

/-! # The decimals of a rounded double

The shortest decimal of the double nearest to a multiple of `10 ^ -places` is such a multiple, too: no digit is
left below the place of the unit. Where the value of the double has no digit as high as that, the multiple is
`10 ^ -places` itself, and the digits are cut to it.
-/
namespace DeskCalculator.Binary64

section shortest
variable {places : Nat} {x : Rat}

theorem isMultiple_value {d : Decimal} (h : -(places : Int) ≤ d.exponent) :
    IsMultiple places d.value := by
  refine isMultiple_iff.mpr ⟨d.coefficient * 10 ^ (d.exponent + places).toNat, ?_⟩
  have hpow : (10 : Rat) ^ (d.exponent + places).toNat = 10 ^ d.exponent * 10 ^ places := by
    rw [← zpow_natCast, Int.toNat_of_nonneg (by omega), zpow_add₀ (by norm_num), zpow_natCast]
  push_cast
  rw [hpow, Decimal.value, mul_assoc]

theorem unit_le_of_isMultiple (hx : IsMultiple places x) (hpos : 0 < x) : 10 ^ (-(places : Int)) ≤ x := by
  obtain ⟨n, rfl⟩ := hx
  have hn : 0 < n := by
    have := (div_pos_iff_of_pos_right (scale_pos places)).mp hpos
    exact_mod_cast this
  rw [zpow_neg, zpow_natCast, ← one_div]
  apply div_le_div_of_nonneg_right _ (scale_pos places).le
  exact_mod_cast hn

theorem two_zpow_le_unit (hplaces : places ≤ 17) : (2 : Rat) ^ (-1022 : Int) ≤ 10 ^ (-(places : Int)) := by
  calc (2 : Rat) ^ (-1022 : Int) ≤ 2 ^ (-120 : Int) := zpow_le_zpow_right₀ (by norm_num) (by norm_num)
    _ ≤ 10 ^ (-17 : Int) := by norm_num
    _ ≤ 10 ^ (-(places : Int)) := zpow_le_zpow_right₀ (by norm_num) (by omega)

/-- However many digits the number has, it is cut to a multiple. -/
theorem isMultiple_value_cutDigits {r t : Nat} {d : Decimal} (hplaces : places ≤ 17)
    (hr : r < infinityRank) (hr0 : r ≠ 0) (hx : IsMultiple places x) (hxr : nearestRank x = r)
    (hd : d.value = magnitude r) (hc : d.coefficient < 10 ^ (t + 1)) :
    IsMultiple places (cutDigits r d t).value := by
  have hdr : nearestRank d.value = r := by rw [hd, nearestRank_magnitude hr]
  rcases le_or_gt (-(places : Int)) (d.exponent + t) with hreach | hreach
  -- The digits reach up to the place of the unit.
  · apply isMultiple_value
    obtain ⟨n, rfl⟩ := hx
    rw [div_eq_mul_inv, ← zpow_natCast, ← zpow_neg] at hxr
    exact le_exponent_cutDigits hreach hxr hdr
  -- The number is less than the unit, and the multiple is not.
  · have hlt : d.value < 10 ^ (-(places : Int)) :=
      (value_lt_of_coefficient_lt hc).trans_le (zpow_le_zpow_right₀ (by norm_num) (by omega))
    have hle := unit_le_of_isMultiple hx (pos_of_nearestRank_ne_zero (hxr ▸ hr0))
    have hunit := nearestRank_eq_of_between hdr hxr hlt.le hle
    have hbinade := binade_le_nearestRank (two_zpow_le_unit hplaces)
    rw [hunit] at hbinade
    rw [← one_mul (10 ^ (-(places : Int)) : Rat), ← Nat.cast_one] at hunit
    have hten := eq_ten_mul_of_lt one_pos hreach hc hunit hd hbinade hr
    rw [hten] at hunit
    rw [value_cutDigits_eq (by norm_num) le_rfl hunit hdr hbinade hr, ← hten]
    exact ⟨1, by rw [zpow_neg, zpow_natCast]; simp⟩

/-- The shortest decimal of the double nearest to a multiple is a multiple, too. -/
theorem isMultiple_value_shortest (hplaces : places ≤ 17) (hx : IsMultiple places x)
    (h : nearestRank x < infinityRank) : IsMultiple places (shortest (nearestRank x)).value := by
  rcases eq_or_ne (nearestRank x) 0 with h0 | h0
  · exact ⟨0, by simp [h0, value_shortest_zero]⟩
  · obtain ⟨t, hshortest, hc⟩ := exists_shortest_eq_cutDigits (nearestRank x)
    rw [hshortest]
    exact isMultiple_value_cutDigits hplaces h h0 hx rfl (value_expansion _) hc

end shortest

/-- The text of a rounded double shows no more decimals than it was rounded to. -/
theorem atMostPlaces_chars_roundTo {places : Nat} (hplaces : places ≤ 17) {v : Float}
    (h : isFinite v = true) : Decimal.AtMostPlaces places (chars (roundTo places v)) := by
  have hlt := roundedRank_lt places (of_decide_eq_true h)
  obtain ⟨n, hn⟩ := isMultiple_iff.mp
    (isMultiple_value_shortest hplaces (isMultiple_roundedValue places (magnitude (rank v))) hlt)
  have hplain : Decimal.AtMostPlaces places (shortest (roundedRank places (rank v))).plain :=
    Decimal.atMostPlaces_plain hn
  rw [chars_of_isFinite (isFinite_roundTo places h), rank_roundTo places h]
  split
  · exact hplain.minus
  · exact hplain

end DeskCalculator.Binary64
