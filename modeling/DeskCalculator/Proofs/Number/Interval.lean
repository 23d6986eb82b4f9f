import DeskCalculator.Proofs.Number.Distance

/-! # Which numbers a double is nearest to

A number is within half a step of its nearest double. If the double does not begin a binade, this alone
decides it, and the numbers that it is nearest to lie evenly around it. Below the first double of a binade
the steps are shorter.
-/
namespace DeskCalculator.Binary64

variable {x y : Rat} {r level steps : Nat}

theorem levelOf_eq (hx : 0 < x) (hlow : level = 0 ∨ (binade : Rat) * spacing level ≤ x)
    (hhigh : x < (2 * binade : Nat) * spacing level) : levelOf x = level := by
  rcases lt_trichotomy (levelOf x) level with hlt | heq | hgt
  · have hstart := hlow.resolve_left (by omega)
    have := lt_spacing_levelOf hx
    have := steps_mul_spacing_le le_rfl hlt
    linarith
  · exact heq
  · have := spacing_levelOf_le hx (by omega)
    have := steps_mul_spacing_le le_rfl hgt
    linarith

theorem abs_sub_magnitude_le_half_spacing (hx : 0 < x) (h : nearestRank x < infinityRank) :
    |x - magnitude (nearestRank x)| ≤ spacing (levelOf x) / 2 := by
  have hs := spacing_pos (levelOf x)
  have hhalf := (roundsTo_halfEven (x / spacing (levelOf x))).le_half
  calc |x - magnitude (nearestRank x)| =
        |x / spacing (levelOf x) - stepsOf x| * spacing (levelOf x) := by
        rw [magnitude_nearestRank hx h, abs_sub_mul_unit hs]
    _ ≤ 1 / 2 * spacing (levelOf x) := mul_le_mul_of_nonneg_right hhalf hs.le
    _ = spacing (levelOf x) / 2 := by ring

/-- The nearest double is no lower than the level of the number. -/
theorem levelOf_le_lift (hx : 0 < x) (h : nearestRank x < infinityRank) :
    levelOf x ≤ lift (nearestRank x) := by
  have hl := binade_le_stepsOf hx
  have h0 := stepsOf_nonneg hx
  have hr := nearestRank_of_pos hx
  rw [min_eq_left (by omega)] at hr
  simp only [lift, binade] at hr hl ⊢
  omega

/-- Inside a binade the nearest double tells level and steps of a number. -/
theorem level_steps_of_nearestRank (hx : 0 < x) (h : nearestRank x = level * binade + steps)
    (hfinite : nearestRank x < infinityRank) (hs : steps < 2 * binade)
    (hl : level = 0 ∨ binade < steps) : levelOf x = level ∧ stepsOf x = steps := by
  have hle := stepsOf_le hx
  have hge := binade_le_stepsOf hx
  have h0 := stepsOf_nonneg hx
  have hr := nearestRank_of_pos hx
  rw [min_eq_left (by omega), h] at hr
  simp only [binade] at hle hge hr hs hl
  constructor <;> omega

/-- A double inside a binade is also nearest to what is no farther from it than a number that it is
nearest to. -/
theorem nearestRank_eq_of_abs_le (hx : 0 < x) (h : nearestRank x = level * binade + steps)
    (hfinite : nearestRank x < infinityRank) (hs : steps < 2 * binade)
    (hl : level = 0 ∨ binade < steps) (hsteps : 0 < steps)
    (hy : |y - magnitude (nearestRank x)| ≤ |x - magnitude (nearestRank x)|) :
    nearestRank y = nearestRank x := by
  obtain ⟨hlevel, hcount⟩ := level_steps_of_nearestRank hx h hfinite hs hl
  have hpos := spacing_pos level
  have hhalf := hy.trans (abs_sub_magnitude_le_half_spacing hx hfinite)
  have hmagnitude : magnitude (nearestRank x) = steps * spacing level := by
    rw [magnitude_nearestRank hx hfinite, hlevel, hcount]
    push_cast
    rfl
  rw [hmagnitude] at hy hhalf
  rw [hlevel] at hhalf
  have hbounds := abs_le.mp hhalf
  have hy0 : 0 < y := by
    have : (1 : Rat) * spacing level ≤ steps * spacing level :=
      mul_le_mul_of_nonneg_right (by exact_mod_cast hsteps) hpos.le
    linarith
  have hylevel : levelOf y = level := by
    refine levelOf_eq hy0 (hl.imp_right ?_) ?_
    · intro hsteps
      have hnext : (binade : Rat) + 1 ≤ steps := by exact_mod_cast hsteps
      have := mul_le_mul_of_nonneg_right hnext hpos.le
      linarith
    · have hnext : (steps : Rat) + 1 ≤ (2 * binade : Nat) := by exact_mod_cast hs
      have := mul_le_mul_of_nonneg_right hnext hpos.le
      linarith
  have hysteps : stepsOf y = stepsOf x := by
    have hcast : (steps : Rat) = ((stepsOf x : Int) : Rat) := by
      rw [hcount]
      rfl
    rw [hcast, abs_sub_mul_unit hpos, abs_sub_mul_unit hpos] at hy
    have hle := le_of_mul_le_mul_right hy hpos
    rw [stepsOf, hylevel]
    rw [stepsOf, hlevel] at hle ⊢
    exact halfEven_eq_of_abs_le hle
  rw [nearestRank_of_pos hy0, nearestRank_of_pos hx, hylevel, hlevel, hysteps]

end DeskCalculator.Binary64
