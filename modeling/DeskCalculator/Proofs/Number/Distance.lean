import DeskCalculator.Proofs.Number.HalfEven
import DeskCalculator.Proofs.Number.Nearest

/-! # The distance to the nearest double

The rank nearest to a positive number is made of the level of its binade and of its rounded number of
steps there. So the nearest rank grows with the number, and no double is nearer to a number than its
nearest one as long as that is finite; if another one is as near, the nearest has an even mantissa.
-/
namespace DeskCalculator.Binary64

def spacing (level : Nat) : Rat := (2 : Rat) ^ ((level : Int) - 1074)

/-- The level of the binade of a positive number; the lowest one reaches down to zero. -/
def levelOf (x : Rat) : Nat := (floorLog2 x + 1022).toNat

def stepsOf (x : Rat) : Int := halfEven (x / spacing (levelOf x))

theorem spacing_pos (level : Nat) : 0 < spacing level := two_zpow_pos _

theorem spacing_succ (level : Nat) : spacing (level + 1) = 2 * spacing level := by
  rw [spacing, spacing, ← zpow_one_add₀ (by norm_num)]
  congr 1
  push_cast
  ring

theorem exists_spacing_eq {a b : Nat} (h : a ≤ b) : ∃ k : Nat, spacing b = k * spacing a := by
  refine ⟨2 ^ (b - a), ?_⟩
  rw [spacing, spacing, Nat.cast_pow, Nat.cast_ofNat, ← zpow_natCast, ← zpow_add₀ (by norm_num)]
  congr 1
  omega

theorem spacing_mono {a b : Nat} (h : a ≤ b) : spacing a ≤ spacing b :=
  zpow_le_zpow_right₀ (by norm_num) (by omega)

/-- A level ends where the binades of the higher ones begin. -/
theorem steps_mul_spacing_le {a b steps : Nat} (hs : steps ≤ 2 * binade) (h : a < b) :
    (steps : Rat) * spacing a ≤ binade * spacing b := by
  calc (steps : Rat) * spacing a ≤ (2 * binade : Nat) * spacing a := by
        gcongr
        exact (spacing_pos a).le
    _ = binade * spacing (a + 1) := by
        rw [spacing_succ]
        push_cast
        ring
    _ ≤ binade * spacing b := by
        gcongr
        exact spacing_mono h

/-- A rank is a level and a number of steps; above the lowest level at least one binade of them. -/
theorem magnitude_add {level steps : Nat} (hs : steps ≤ 2 * binade)
    (hl : level = 0 ∨ binade ≤ steps) :
    magnitude (level * binade + steps) = steps * spacing level := by
  unfold magnitude
  rcases hs.lt_or_eq with hs | rfl
  · have hlift : lift (level * binade + steps) = level := by
      simp only [lift, binade] at hs hl ⊢
      omega
    rw [hlift, Nat.add_sub_cancel_left]
    rfl
  · have hlift : lift (level * binade + 2 * binade) = level + 1 := by
      simp only [lift, binade]
      omega
    have hsteps : level * binade + 2 * binade - (level + 1) * binade = binade := by
      simp only [binade]
      omega
    rw [hlift, hsteps]
    change (binade : Rat) * spacing (level + 1) = _
    rw [spacing_succ]
    push_cast
    ring

theorem exists_level_steps (r : Nat) : ∃ level steps, r = level * binade + steps ∧
    steps < 2 * binade ∧ (level = 0 ∨ binade ≤ steps) := by
  refine ⟨lift r, r - lift r * binade, ?_, ?_, ?_⟩ <;> simp only [lift, binade] <;> omega

theorem magnitude_nonneg (r : Nat) : 0 ≤ magnitude r :=
  mul_nonneg (Nat.cast_nonneg _) (two_zpow_pos _).le

theorem magnitude_mono {r s : Nat} (h : r ≤ s) : magnitude r ≤ magnitude s := by
  obtain ⟨a, m, rfl, hm, ha⟩ := exists_level_steps r
  obtain ⟨b, n, rfl, hn, hb⟩ := exists_level_steps s
  rw [magnitude_add hm.le ha, magnitude_add hn.le hb]
  have hab : a ≤ b := by
    simp only [binade] at *
    omega
  rcases hab.lt_or_eq with hab | rfl
  · have hn : binade ≤ n := hb.resolve_left (by omega)
    calc (m : Rat) * spacing a ≤ binade * spacing b := steps_mul_spacing_le hm.le hab
      _ ≤ n * spacing b := by
          gcongr
          exact (spacing_pos b).le
  · have hmn : m ≤ n := by omega
    gcongr
    exact (spacing_pos a).le

/-- From a certain level on doubles are whole numbers. -/
theorem exists_magnitude_eq {r : Nat} (h : 1074 ≤ lift r) : ∃ n : Int, magnitude r = n := by
  obtain ⟨k, hk⟩ := exists_spacing_eq h
  have hone : spacing 1074 = 1 := by simp [spacing]
  refine ⟨(r - lift r * binade : Nat) * k, ?_⟩
  rw [hone, mul_one] at hk
  change _ * spacing (lift r) = _
  rw [hk]
  push_cast
  rfl

theorem levelOf_mono {x y : Rat} (hx : 0 < x) (h : x ≤ y) : levelOf x ≤ levelOf y := by
  rw [levelOf, levelOf, floorLog2_eq_log hx, floorLog2_eq_log (hx.trans_le h)]
  have := Int.log_mono_right (b := 2) hx h
  omega

theorem lt_spacing_levelOf {x : Rat} (hx : 0 < x) :
    x < (2 * binade : Nat) * spacing (levelOf x) := by
  have hlog := Int.lt_zpow_succ_log_self (b := 2) (by norm_num) x
  have hle : Int.log 2 x + 1 ≤ (levelOf x : Int) - 1021 := by
    rw [levelOf, floorLog2_eq_log hx]
    omega
  calc x < (2 : Rat) ^ (Int.log 2 x + 1) := hlog
    _ ≤ (2 : Rat) ^ ((levelOf x : Int) - 1021) := zpow_le_zpow_right₀ (by norm_num) hle
    _ = (2 * binade : Nat) * spacing (levelOf x) := by
      have hpow : ((2 * binade : Nat) : Rat) = (2 : Rat) ^ (53 : Int) := by norm_num [binade]
      rw [spacing, hpow, ← zpow_add₀ (by norm_num)]
      congr 1
      omega

theorem spacing_levelOf_le {x : Rat} (hx : 0 < x) (hl : levelOf x ≠ 0) :
    (binade : Rat) * spacing (levelOf x) ≤ x := by
  have hlog := Int.zpow_log_le_self (b := 2) (by norm_num) hx
  have heq : (levelOf x : Int) - 1022 = Int.log 2 x := by
    rw [levelOf, floorLog2_eq_log hx] at hl ⊢
    omega
  have hpow : (binade : Rat) = (2 : Rat) ^ (52 : Int) := by norm_num [binade]
  have hexp : (52 : Int) + ((levelOf x : Int) - 1074) = Int.log 2 x := by omega
  rw [spacing, hpow, ← zpow_add₀ (by norm_num), hexp]
  exact hlog

theorem stepsOf_le {x : Rat} (hx : 0 < x) : stepsOf x ≤ (2 * binade : Nat) := by
  have hle : x / spacing (levelOf x) ≤ ((2 * binade : Nat) : Int) := by
    rw [div_le_iff₀ (spacing_pos _)]
    exact (lt_spacing_levelOf hx).le
  calc stepsOf x ≤ halfEven ((2 * binade : Nat) : Int) := halfEven_mono hle
    _ = (2 * binade : Nat) := halfEven_intCast _

theorem binade_le_stepsOf {x : Rat} (hx : 0 < x) (hl : levelOf x ≠ 0) : binade ≤ stepsOf x := by
  have hle : ((binade : Int) : Rat) ≤ x / spacing (levelOf x) := by
    rw [le_div_iff₀ (spacing_pos _)]
    exact spacing_levelOf_le hx hl
  calc (binade : Int) = halfEven (binade : Int) := (halfEven_intCast _).symm
    _ ≤ stepsOf x := halfEven_mono hle

theorem stepsOf_nonneg {x : Rat} (hx : 0 < x) : 0 ≤ stepsOf x :=
  halfEven_nonneg (div_pos hx (spacing_pos _)).le

theorem nearestRank_of_pos {x : Rat} (hx : 0 < x) :
    nearestRank x = min (levelOf x * binade + (stepsOf x).toNat) infinityRank := by
  rw [nearestRank, if_neg hx.not_ge]
  rfl

theorem nearestRank_mono {x y : Rat} (h : x ≤ y) : nearestRank x ≤ nearestRank y := by
  rcases le_or_gt x 0 with hx | hx
  · rw [nearestRank, if_pos hx]
    exact Nat.zero_le _
  · have hy := hx.trans_le h
    rw [nearestRank_of_pos hx, nearestRank_of_pos hy]
    apply min_le_min_right
    rcases (levelOf_mono hx h).lt_or_eq with hl | hl
    · have hsx := stepsOf_le hx
      have hsy := binade_le_stepsOf hy (by omega)
      simp only [binade] at *
      omega
    · have hs : stepsOf x ≤ stepsOf y := by
        rw [stepsOf, stepsOf, hl]
        exact halfEven_mono (div_le_div_of_nonneg_right h (spacing_pos _).le)
      rw [hl]
      omega

theorem magnitude_nearestRank {x : Rat} (hx : 0 < x) (h : nearestRank x < infinityRank) :
    magnitude (nearestRank x) = stepsOf x * spacing (levelOf x) := by
  have hs := stepsOf_le hx
  have hl := binade_le_stepsOf hx
  have h0 := stepsOf_nonneg hx
  have hr := nearestRank_of_pos hx
  rw [min_eq_left (by omega)] at hr
  rw [hr, magnitude_add (by omega) (by omega)]
  congr 1
  exact_mod_cast Int.toNat_of_nonneg h0

/-- Below the first double of its binade no double is as near to a number. -/
theorem abs_sub_lt_of_level_lt {x : Rat} (hx : 0 < x) {level steps : Nat} (hs : steps < 2 * binade)
    (h : level < levelOf x) : |x - stepsOf x * spacing (levelOf x)| < |x - steps * spacing level| := by
  have hfirst := spacing_levelOf_le hx (by omega)
  have hbelow : (steps : Rat) * spacing level < binade * spacing (levelOf x) := by
    calc (steps : Rat) * spacing level < (2 * binade : Nat) * spacing level :=
          mul_lt_mul_of_pos_right (by exact_mod_cast hs) (spacing_pos level)
      _ ≤ binade * spacing (levelOf x) := steps_mul_spacing_le le_rfl h
  have := abs_sub_halfEven_mul_le x (spacing_pos (levelOf x)) (binade : Int)
  calc |x - stepsOf x * spacing (levelOf x)| ≤ |x - binade * spacing (levelOf x)| := this
    _ = x - binade * spacing (levelOf x) := abs_of_nonneg (by linarith)
    _ < x - steps * spacing level := by linarith
    _ = |x - steps * spacing level| := (abs_of_nonneg (by linarith)).symm

theorem nearestRank_mod_two {x : Rat} (hx : 0 < x) (h : nearestRank x < infinityRank) :
    (nearestRank x : Int) % 2 = stepsOf x % 2 := by
  have h0 := stepsOf_nonneg hx
  have hr := nearestRank_of_pos hx
  rw [min_eq_left (by omega)] at hr
  simp only [binade] at hr
  omega

/-- Every other magnitude is farther away, or as far while the rank is even. -/
theorem abs_sub_magnitude_lt_or {x : Rat} (hx : 0 ≤ x) (h : nearestRank x < infinityRank) {r : Nat}
    (hr : magnitude r ≠ magnitude (nearestRank x)) :
    |x - magnitude (nearestRank x)| < |x - magnitude r| ∨
      |x - magnitude (nearestRank x)| = |x - magnitude r| ∧ nearestRank x % 2 = 0 := by
  rcases hx.lt_or_eq with hx | rfl
  · have hparity := nearestRank_mod_two hx h
    rw [magnitude_nearestRank hx h] at hr ⊢
    obtain ⟨level, steps, rfl, hs, hl⟩ := exists_level_steps r
    rw [magnitude_add hs.le hl] at hr ⊢
    rcases le_or_gt (levelOf x) level with hlevel | hlevel
    · obtain ⟨k, hk⟩ := exists_spacing_eq hlevel
      have hmul : (steps : Rat) * spacing level = (steps * k : Nat) * spacing (levelOf x) := by
        rw [hk]
        push_cast
        ring
      rw [hmul] at hr ⊢
      have hne : ((steps * k : Nat) : Int) ≠ stepsOf x := by
        intro heq
        exact hr (by rw [← heq]; push_cast; rfl)
      refine (abs_sub_halfEven_mul_lt_or x (spacing_pos (levelOf x)) hne).imp id ?_
      rintro ⟨heq, heven⟩
      refine ⟨by exact_mod_cast heq, ?_⟩
      change stepsOf x % 2 = 0 at heven
      omega
    · exact .inl (abs_sub_lt_of_level_lt hx hs hlevel)
  · left
    simpa using hr

/-- No rank has a nearer magnitude. -/
theorem abs_sub_magnitude_nearestRank_le {x : Rat} (hx : 0 ≤ x) (h : nearestRank x < infinityRank)
    (r : Nat) : |x - magnitude (nearestRank x)| ≤ |x - magnitude r| := by
  by_cases hr : magnitude r = magnitude (nearestRank x)
  · rw [hr]
  · rcases abs_sub_magnitude_lt_or hx h hr with hlt | heq
    · exact hlt.le
    · exact heq.1.le

theorem rank_nearest (x : Rat) : rank (nearest x) = nearestRank |x| := by
  rw [nearest, rank_ofRank _ (nearestRank_le _)]
  congr 1
  split
  case isTrue h => exact (abs_of_neg h).symm
  case isFalse h => exact (abs_of_nonneg (not_lt.mp h)).symm

theorem isFinite_nearest_iff {x : Rat} :
    isFinite (nearest x) = true ↔ nearestRank |x| < infinityRank := by
  rw [isFinite, decide_eq_true_iff, rank_nearest]

theorem value_of_isNegative {v : Float} (h : isNegative v = true) : value v = -magnitude (rank v) :=
  if_pos h

theorem value_of_not_isNegative {v : Float} (h : isNegative v = false) :
    value v = magnitude (rank v) := by
  rw [value, h]
  rfl

theorem value_nearest_of_nonneg {x : Rat} (h : 0 ≤ x) :
    value (nearest x) = magnitude (nearestRank x) := by
  rw [nearest_of_nonneg h, value_of_not_isNegative (isNegative_ofRank false (nearestRank_le x)),
    rank_ofRank false (nearestRank_le x)]

theorem value_nearest_neg (x : Rat) : value (nearest (-x)) = -value (nearest x) := by
  have hpos : ∀ y : Rat, 0 < y → value (nearest (-y)) = -value (nearest y) := by
    intro y hy
    rw [nearest_neg_of_pos hy, value_of_isNegative (isNegative_ofRank true (nearestRank_le y)),
      rank_ofRank true (nearestRank_le y), value_nearest_of_nonneg hy.le]
  rcases lt_trichotomy x 0 with h | rfl | h
  · have := hpos (-x) (by linarith)
    rw [neg_neg] at this
    rw [this, neg_neg]
  · have h0 : value (nearest 0) = 0 := by
      rw [value_nearest_of_nonneg le_rfl, nearestRank_zero, magnitude_zero]
    rw [neg_zero, h0, neg_zero]
  · exact hpos x h

theorem abs_value (v : Float) : |value v| = magnitude (rank v) := by
  unfold value
  split
  · rw [abs_neg, abs_of_nonneg (magnitude_nonneg _)]
  · exact abs_of_nonneg (magnitude_nonneg _)

theorem value_of_isZero {v : Float} (h : isZero v = true) : value v = 0 := by
  have hrank : rank v = 0 := eq_of_beq h
  rw [← abs_eq_zero, abs_value, hrank, magnitude_zero]

/-- The bits of a double below its exponent, and the leading one above them if it has one. -/
def mantissa (v : Float) : Nat := rank v - lift (rank v) * binade

theorem mantissa_mod_two (v : Float) : mantissa v % 2 = rank v % 2 := by
  simp only [mantissa, lift, binade]
  omega

/-- Whether a finite double is nearest to a number, and has an even mantissa if others are as near. -/
def IsNearest (x : Rat) (v : Float) : Prop :=
  isFinite v = true ∧ ∀ w : Float, isFinite w = true → value w ≠ value v →
    |x - value v| < |x - value w| ∨ |x - value v| = |x - value w| ∧ mantissa v % 2 = 0

theorem IsNearest.abs_sub_le {x : Rat} {v w : Float} (h : IsNearest x v) (hw : isFinite w = true) :
    |x - value v| ≤ |x - value w| := by
  by_cases heq : value w = value v
  · rw [heq]
  · rcases h.2 w hw heq with hlt | htie
    · exact hlt.le
    · exact htie.1.le

/-- To a nonnegative number a signed magnitude is as near only if it is the nearest one or ties with it;
the one of the other sign is on the other side of zero. -/
theorem abs_sub_lt_or_of_abs_eq {x z : Rat} (hx : 0 ≤ x) (h : nearestRank x < infinityRank) {r : Nat}
    (hz : |z| = magnitude r) (hne : z ≠ magnitude (nearestRank x)) :
    |x - magnitude (nearestRank x)| < |x - z| ∨
      |x - magnitude (nearestRank x)| = |x - z| ∧ nearestRank x % 2 = 0 := by
  by_cases hm : magnitude r = magnitude (nearestRank x)
  · obtain rfl : z = -magnitude (nearestRank x) := by
      rw [← hm, ← hz] at hne ⊢
      rcases abs_choice z with habs | habs
      · exact absurd habs.symm hne
      · rw [habs, neg_neg]
    have hne0 : magnitude (nearestRank x) ≠ 0 := by
      intro h0
      exact hne (by rw [h0, neg_zero])
    have hmpos := lt_of_le_of_ne (magnitude_nonneg _) hne0.symm
    have hxpos : 0 < x := by
      refine lt_of_le_of_ne hx ?_
      rintro rfl
      exact hne0 (by simp)
    left
    rw [sub_neg_eq_add, abs_of_pos (add_pos hxpos hmpos), abs_lt]
    constructor <;> linarith
  · have hle : |x - magnitude r| ≤ |x - z| := by
      rw [← hz]
      nth_rewrite 1 [← abs_of_nonneg hx]
      exact abs_abs_sub_abs_le_abs_sub x z
    rcases abs_sub_magnitude_lt_or hx h hm with hlt | ⟨heq, heven⟩
    · exact .inl (hlt.trans_le hle)
    · exact (heq.trans_le hle).lt_or_eq.imp_right (⟨·, heven⟩)

theorem isNearest_nearest {x : Rat} (h : isFinite (nearest x) = true) : IsNearest x (nearest x) := by
  have hrank := isFinite_nearest_iff.mp h
  refine ⟨h, ?_⟩
  rw [mantissa_mod_two, rank_nearest]
  intro w _ hne
  rcases le_total 0 x with hx | hx
  · rw [abs_of_nonneg hx] at hrank ⊢
    rw [value_nearest_of_nonneg hx] at hne ⊢
    exact abs_sub_lt_or_of_abs_eq hx hrank (abs_value w) hne
  · have hneg : value (nearest x) = -magnitude (nearestRank (-x)) := by
      rw [← value_nearest_of_nonneg (neg_nonneg.mpr hx), value_nearest_neg, neg_neg]
    have hflip : ∀ z : Rat, |-x - z| = |x - -z| := by
      intro z
      rw [← abs_neg]
      congr 1
      ring
    rw [abs_of_nonpos hx] at hrank ⊢
    rw [hneg] at hne ⊢
    have := abs_sub_lt_or_of_abs_eq (neg_nonneg.mpr hx) hrank (z := -value w)
      (by rw [abs_neg, abs_value]) (fun heq => hne (by rw [← heq, neg_neg]))
    rwa [hflip, hflip, neg_neg] at this

end DeskCalculator.Binary64
