import DeskCalculator.Proofs.Number.Interval
import DeskCalculator.Proofs.Number.Places

/-! # Multiples of a power of ten and the doubles nearest to them

Up to seventeen places, the double nearest to a multiple of `10 ^ -places` is also the one nearest to what
it is rounded to itself. Inside a binade this is so for every number of places: the rounded value is no
farther from the double than the multiple is. The first double of a binade is a power of two, and no
multiple that it is nearest to can be that near to it unless it is a multiple itself.
-/
namespace DeskCalculator.Binary64

def IsMultiple (places : Nat) (x : Rat) : Prop := ∃ n : Int, x = n / 10 ^ places

variable {places finer : Nat} {x y : Rat}

theorem isMultiple_iff : IsMultiple places x ↔ ∃ n : Int, x * 10 ^ places = n := by
  refine exists_congr fun n => ?_
  rw [eq_div_iff (scale_pos places).ne']

theorem IsMultiple.mono (hx : IsMultiple places x) (h : places ≤ finer) : IsMultiple finer x := by
  obtain ⟨n, hn⟩ := isMultiple_iff.mp hx
  refine isMultiple_iff.mpr ⟨n * 10 ^ (finer - places), ?_⟩
  have hsplit : (10 : Rat) ^ finer = 10 ^ places * 10 ^ (finer - places) := by
    rw [← pow_add, Nat.add_sub_cancel' h]
  rw [hsplit, ← mul_assoc, hn]
  push_cast
  rfl

theorem isMultiple_roundedValue (places : Nat) (x : Rat) : IsMultiple places (roundedValue places x) :=
  ⟨_, rfl⟩

theorem roundedValue_of_isMultiple (hx : IsMultiple places x) : roundedValue places x = x := by
  obtain ⟨n, hn⟩ := isMultiple_iff.mp hx
  rw [roundedValue, hn, halfEven_intCast, ← hn, mul_div_cancel_right₀ _ (scale_pos places).ne']

/-- No multiple is nearer than the rounded value. -/
theorem abs_sub_roundedValue_le_of_isMultiple (hx : IsMultiple places x) (y : Rat) :
    |y - roundedValue places y| ≤ |y - x| := by
  obtain ⟨n, rfl⟩ := hx
  have := abs_sub_halfEven_mul_le y (inv_pos.mpr (scale_pos places)) n
  rwa [div_inv_eq_mul, ← div_eq_mul_inv, ← div_eq_mul_inv] at this

theorem ten_pow (n : Nat) : (10 : Rat) ^ n = 2 ^ n * 5 ^ n := by
  rw [← mul_pow]
  norm_num

theorem isMultiple_two_zpow {e : Int} (h : -(places : Int) ≤ e) : IsMultiple places ((2 : Rat) ^ e) := by
  refine isMultiple_iff.mpr ⟨2 ^ (e + places).toNat * 5 ^ places, ?_⟩
  have hexp : (2 : Rat) ^ (e + places).toNat = 2 ^ (e + places) := by
    rw [← zpow_natCast, Int.toNat_of_nonneg (by omega)]
  push_cast
  rw [ten_pow, hexp, zpow_add₀ (by norm_num), zpow_natCast, mul_assoc]

/-- A power of two with a multiple of `10 ^ -places` that near to it is one itself. -/
theorem isMultiple_two_zpow_of_abs_sub_le (hplaces : places ≤ 17) {e : Int} (hx : IsMultiple places x)
    (h : |x - 2 ^ e| ≤ 2 ^ e / 2 ^ 53) : IsMultiple places ((2 : Rat) ^ e) := by
  by_cases he : -(places : Int) ≤ e
  · exact isMultiple_two_zpow he
  · exfalso
    obtain ⟨n, hn⟩ := isMultiple_iff.mp hx
    obtain ⟨k, rfl⟩ : ∃ k : Nat, e = -((places + k + 1 : Nat) : Int) :=
      ⟨(-e).toNat - places - 1, by omega⟩
    have hpow : (2 : Rat) ^ (-((places + k + 1 : Nat) : Int)) * (10 ^ places * 2 ^ (k + 1)) =
        5 ^ places := by
      rw [zpow_neg, zpow_natCast, ten_pow, add_assoc, pow_add]
      field_simp
    have hscale : (0 : Rat) < 10 ^ places * 2 ^ (k + 1) := by positivity
    -- Both sides times `10 ^ places * 2 ^ (k + 1)`: an odd integer is not below one.
    have hodd : n * 2 ^ (k + 1) - 5 ^ places ≠ 0 := by
      have hfive : Odd ((5 : Int) ^ places) := Odd.pow (by decide)
      have htwo : Even (n * (2 : Int) ^ (k + 1)) := by
        rw [pow_succ, ← mul_assoc]
        exact even_two.mul_left _
      intro h0
      rw [sub_eq_zero.mp h0] at htwo
      exact Int.not_even_iff_odd.mpr hfive htwo
    have hone : (1 : Rat) ≤ |(n : Rat) * 2 ^ (k + 1) - 5 ^ places| := by
      exact_mod_cast Int.one_le_abs hodd
    have hsmall : (5 : Rat) ^ places < 2 ^ 53 := by
      calc (5 : Rat) ^ places ≤ 5 ^ 17 := pow_le_pow_right₀ (by norm_num) hplaces
        _ < 2 ^ 53 := by norm_num
    have hle := mul_le_mul_of_nonneg_right h hscale.le
    rw [← abs_of_pos hscale, ← abs_mul, abs_of_pos hscale, sub_mul, hpow, div_mul_eq_mul_div, hpow,
      ← mul_assoc, hn, le_div_iff₀ (by norm_num)] at hle
    linarith

/-- The first double of a binade above the lowest level. -/
theorem magnitude_binade (level : Nat) :
    magnitude (level * binade + binade) = 2 ^ ((level : Int) - 1022) := by
  have hpow : (binade : Rat) = 2 ^ (52 : Int) := by norm_num [binade]
  rw [magnitude_add (by omega) (.inr le_rfl), spacing, hpow, ← zpow_add₀ (by norm_num)]
  congr 1
  omega

/-- If the first double of a binade is nearest to a number, it is at most half a step of its level away. -/
theorem abs_sub_two_zpow_le {level : Nat} (hx : 0 < x) (h : nearestRank x = level * binade + binade)
    (hfinite : nearestRank x < infinityRank) :
    |x - 2 ^ ((level : Int) - 1022)| ≤ 2 ^ ((level : Int) - 1022) / 2 ^ 53 := by
  have hhalf := abs_sub_magnitude_le_half_spacing hx hfinite
  have hle : levelOf x ≤ level := by
    have := levelOf_le_lift hx hfinite
    simp only [h, lift, binade] at this
    omega
  rw [h, magnitude_binade] at hhalf
  calc |x - 2 ^ ((level : Int) - 1022)| ≤ spacing (levelOf x) / 2 := hhalf
    _ ≤ spacing level / 2 := by
        gcongr
        exact spacing_mono hle
    _ = 2 ^ ((level : Int) - 1022) / 2 ^ 53 := by
        have hsplit : (level : Int) - 1022 = (level : Int) - 1074 + 52 := by omega
        rw [spacing, hsplit, zpow_add₀ (by norm_num)]
        norm_num
        ring

/-- The double nearest to a multiple is still nearest when it is rounded to the multiples. -/
theorem nearestRank_roundedValue_of_isMultiple (hplaces : places ≤ 17) (hx : IsMultiple places x)
    (hx0 : 0 ≤ x) (h : nearestRank x < infinityRank) :
    nearestRank (roundedValue places (magnitude (nearestRank x))) = nearestRank x := by
  rcases hx0.eq_or_lt with rfl | hpos
  · simp
  rcases Nat.eq_zero_or_pos (nearestRank x) with h0 | h0
  · simp [h0]
  obtain ⟨level, steps, hparts, hsteps, hlevel⟩ := exists_level_steps (nearestRank x)
  by_cases hinside : level = 0 ∨ binade < steps
  · apply nearestRank_eq_of_abs_le hpos hparts h hsteps hinside
    · rcases hinside with rfl | hinside <;> omega
    · rw [abs_sub_comm, abs_sub_comm x]
      exact abs_sub_roundedValue_le_of_isMultiple hx _
  · obtain rfl : steps = binade := by omega
    have hmultiple := isMultiple_two_zpow_of_abs_sub_le hplaces hx (abs_sub_two_zpow_le hpos hparts h)
    rw [hparts, magnitude_binade, roundedValue_of_isMultiple hmultiple, ← magnitude_binade, ← hparts,
      nearestRank_magnitude h]

/-- Rounding again to no fewer places changes nothing. -/
theorem roundedRank_roundedRank_of_le (h : places ≤ finer) (hfiner : finer ≤ 17) {r : Nat}
    (hr : r < infinityRank) : roundedRank finer (roundedRank places r) = roundedRank places r :=
  nearestRank_roundedValue_of_isMultiple hfiner ((isMultiple_roundedValue places _).mono h)
    (roundedValue_magnitude_nonneg places r) (roundedRank_lt places hr)

end DeskCalculator.Binary64
