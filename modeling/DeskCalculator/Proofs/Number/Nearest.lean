import DeskCalculator.Proofs.Number.Words

/-! # Nearest doubles

`floorLog2` is the logarithm to the base two. It tells the binade of a double, so the nearest rank to
the value of a finite double is its own rank.
-/
namespace DeskCalculator.Binary64

theorem two_zpow_pos (e : Int) : (0 : Rat) < 2 ^ e := zpow_pos (by norm_num) e

theorem two_zpow_log2_le {n : Nat} (hn : n ≠ 0) : (2 : Rat) ^ (n.log2 : Int) ≤ n := by
  rw [zpow_natCast]
  exact_mod_cast Nat.log2_self_le hn

theorem lt_two_zpow_log2 (n : Nat) : (n : Rat) < (2 : Rat) ^ ((n.log2 : Int) + 1) := by
  have h : n < 2 ^ (n.log2 + 1) := Nat.lt_log2_self
  rw [show (n.log2 : Int) + 1 = ((n.log2 + 1 : Nat) : Int) by omega, zpow_natCast]
  exact_mod_cast h

/-- The bit lengths of numerator and denominator leave two candidates for the logarithm. -/
theorem log_div_bounds {n d : Nat} (hn : n ≠ 0) (hd : d ≠ 0) :
    (n.log2 : Int) - d.log2 - 1 ≤ Int.log 2 ((n : Rat) / d) ∧
      Int.log 2 ((n : Rat) / d) ≤ (n.log2 : Int) - d.log2 := by
  have hn0 : (0 : Rat) < n := by exact_mod_cast Nat.pos_of_ne_zero hn
  have hd0 : (0 : Rat) < d := by exact_mod_cast Nat.pos_of_ne_zero hd
  have hx : (0 : Rat) < (n : Rat) / d := div_pos hn0 hd0
  constructor
  · rw [← Int.zpow_le_iff_le_log (by norm_num) hx, le_div_iff₀ hd0]
    calc (2 : Rat) ^ ((n.log2 : Int) - d.log2 - 1) * d
        ≤ 2 ^ ((n.log2 : Int) - d.log2 - 1) * 2 ^ ((d.log2 : Int) + 1) :=
          mul_le_mul_of_nonneg_left (lt_two_zpow_log2 d).le (two_zpow_pos _).le
      _ = 2 ^ (n.log2 : Int) := by
          rw [← zpow_add₀ (by norm_num)]
          congr 1
          omega
      _ ≤ n := two_zpow_log2_le hn
  · rw [← Int.lt_add_one_iff, ← Int.lt_zpow_iff_log_lt (by norm_num) hx, div_lt_iff₀ hd0]
    calc (n : Rat) < 2 ^ ((n.log2 : Int) + 1) := lt_two_zpow_log2 n
      _ = 2 ^ ((n.log2 : Int) - d.log2 + 1) * 2 ^ (d.log2 : Int) := by
          rw [← zpow_add₀ (by norm_num)]
          congr 1
          omega
      _ ≤ 2 ^ ((n.log2 : Int) - d.log2 + 1) * d :=
          mul_le_mul_of_nonneg_left (two_zpow_log2_le hd) (two_zpow_pos _).le

theorem floorLog2_eq_log {x : Rat} (hx : 0 < x) : floorLog2 x = Int.log 2 x := by
  have hp := Rat.num_pos.mpr hx
  have hx' : (x.num.natAbs : Rat) / x.den = x := by
    have h : ((x.num.natAbs : Int) : Rat) = x.num := by
      rw [Int.natCast_natAbs, abs_of_pos hp]
    rw [← Int.cast_natCast, h, Rat.num_div_den]
  have hb := log_div_bounds (show x.num.natAbs ≠ 0 by omega) x.den_nz
  rw [hx'] at hb
  have hl := Int.zpow_le_iff_le_log (b := 2) (x := (x.num.natAbs.log2 : Int) - x.den.log2)
    (by norm_num) hx
  push_cast at hl
  unfold floorLog2
  by_cases h : (2 : Rat) ^ ((x.num.natAbs.log2 : Int) - x.den.log2) ≤ x
  · have := hl.mp h
    simp only [if_pos h]
    omega
  · have := mt hl.mpr h
    simp only [if_neg h]
    omega

@[simp] theorem magnitude_zero : magnitude 0 = 0 := by simp [magnitude]

@[simp] theorem nearestRank_zero : nearestRank 0 = 0 := if_pos le_rfl

theorem magnitude_pos {r : Nat} (h : 0 < r) : 0 < magnitude r := by
  have hm : 0 < r - lift r * binade := by
    simp only [lift, binade]
    omega
  exact mul_pos (by exact_mod_cast hm) (two_zpow_pos _)

/-- The logarithm of a double tells its binade; in the lowest one it may be smaller. -/
theorem log_magnitude {r : Nat} (h : 0 < r) :
    (Int.log 2 (magnitude r) + 1022).toNat = lift r := by
  have hp := magnitude_pos h
  have hlt : Int.log 2 (magnitude r) < lift r - 1021 := by
    rw [← Int.lt_zpow_iff_log_lt (by norm_num) hp]
    have hm : r - lift r * binade < 2 ^ 53 := by
      simp only [lift, binade]
      omega
    calc magnitude r < (2 : Rat) ^ 53 * 2 ^ ((lift r : Int) - 1074) :=
          mul_lt_mul_of_pos_right (by exact_mod_cast hm) (two_zpow_pos _)
      _ = 2 ^ ((lift r : Int) - 1021) := by
          rw [← zpow_natCast, ← zpow_add₀ (by norm_num)]
          congr 1
          omega
  rcases Nat.eq_zero_or_pos (lift r) with h0 | h0
  · omega
  · have hge : (lift r : Int) - 1022 ≤ Int.log 2 (magnitude r) := by
      rw [← Int.zpow_le_iff_le_log (by norm_num) hp]
      have hm : 2 ^ 52 ≤ r - lift r * binade := by
        simp only [lift, binade] at h0 ⊢
        omega
      calc (2 : Rat) ^ ((lift r : Int) - 1022) = (2 : Rat) ^ 52 * 2 ^ ((lift r : Int) - 1074) := by
            rw [← zpow_natCast, ← zpow_add₀ (by norm_num)]
            congr 1
            omega
        _ ≤ magnitude r :=
            mul_le_mul_of_nonneg_right (by exact_mod_cast hm) (two_zpow_pos _).le
    omega

/-- A finite double is nearest to its own value. -/
theorem nearestRank_magnitude {r : Nat} (h : r < infinityRank) :
    nearestRank (magnitude r) = r := by
  rcases Nat.eq_zero_or_pos r with rfl | hr
  · simp
  · have hp := magnitude_pos hr
    have hm : halfEven (magnitude r / 2 ^ ((lift r : Int) - 1074)) =
        (r - lift r * binade : Nat) := by
      rw [magnitude, mul_div_cancel_right₀ _ (two_zpow_pos _).ne']
      exact halfEven_intCast _
    simp only [nearestRank, if_neg hp.not_ge, floorLog2_eq_log hp, log_magnitude hr, hm]
    simp only [lift, binade, infinityRank] at h ⊢
    omega

theorem pos_of_nearestRank_ne_zero {x : Rat} (h : nearestRank x ≠ 0) : 0 < x := by
  by_contra hn
  exact h (by rw [nearestRank, if_pos (not_lt.mp hn)])

theorem nearest_of_nonneg {x : Rat} (h : 0 ≤ x) : nearest x = ofRank false (nearestRank x) := by
  simp [nearest, h.not_gt]

theorem nearest_neg_of_pos {x : Rat} (h : 0 < x) : nearest (-x) = ofRank true (nearestRank x) := by
  simp [nearest, h]

theorem rank_nearest_le (x : Rat) : rank (nearest x) ≤ infinityRank := by
  rw [nearest, rank_ofRank _ (nearestRank_le _)]
  exact nearestRank_le _

end DeskCalculator.Binary64
