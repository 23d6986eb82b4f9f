import DeskCalculator.Proofs.Number.Cuts
import DeskCalculator.Proofs.Number.Multiples

/-! # Fifteen digits are kept

Two decimals with the same power of ten and at most fifteen digits never have the same nearest double, unless
it is one of those below `2 ^ -1022`: both are so near to the double that they are nearer to each other than
their unit. The shortest decimal of a double cannot have a lower power of ten than a decimal that reads as
the double, so it is that decimal.
-/
namespace DeskCalculator.Binary64

variable {x : Rat} {r m n t : Nat} {k : Int} {d : Decimal}

/-- The double `2 ^ -1022` begins the first binade above the lowest level. -/
theorem binade_le_nearestRank (h : 2 ^ (-1022 : Int) ≤ x) : binade ≤ nearestRank x := by
  have hfirst : magnitude binade = 2 ^ (-1022 : Int) := by simpa using magnitude_binade 0
  calc binade = nearestRank (magnitude binade) := (nearestRank_magnitude (by decide)).symm
    _ ≤ nearestRank x := nearestRank_mono (hfirst.trans_le h)

/-- From there on a number is near to its nearest double in proportion to the double. -/
theorem abs_sub_magnitude_le_div (hx : nearestRank x = r) (hr : binade ≤ r) (hfinite : r < infinityRank) :
    |x - magnitude r| ≤ magnitude r / 2 ^ 53 := by
  subst hx
  have hpos : 0 < x := by
    apply pos_of_nearestRank_ne_zero
    simp only [binade] at hr
    omega
  have hsteps : (binade : Rat) * spacing (lift (nearestRank x)) ≤ magnitude (nearestRank x) := by
    apply mul_le_mul_of_nonneg_right _ (spacing_pos _).le
    have : binade ≤ nearestRank x - lift (nearestRank x) * binade := by
      simp only [lift, binade] at hr ⊢
      omega
    exact_mod_cast this
  have hpow : (2 : Rat) ^ 53 = 2 * binade := by norm_num [binade]
  rw [le_div_iff₀ (by norm_num), hpow]
  calc |x - magnitude (nearestRank x)| * (2 * binade)
      ≤ spacing (levelOf x) / 2 * (2 * binade) := by
        gcongr
        exact abs_sub_magnitude_le_half_spacing hpos hfinite
    _ ≤ spacing (lift (nearestRank x)) / 2 * (2 * binade) := by
        gcongr
        exact spacing_mono (levelOf_le_lift hpos hfinite)
    _ = binade * spacing (lift (nearestRank x)) := by ring
    _ ≤ magnitude (nearestRank x) := hsteps

/-- A unit that fits into a double at most `10 ^ 15` times is wider than the reach of the double. -/
theorem eq_of_nearestRank_eq (hn : n ≤ 10 ^ 15) (hx : nearestRank (n * 10 ^ k) = r)
    (hy : nearestRank (m * 10 ^ k) = r) (hr : binade ≤ r) (hfinite : r < infinityRank) : m = n := by
  have hunit : (0 : Rat) < 10 ^ k := zpow_pos (by norm_num) k
  have hbound : (n : Rat) * 10 ^ k ≤ 10 ^ 15 * 10 ^ k := by
    apply mul_le_mul_of_nonneg_right _ hunit.le
    exact_mod_cast hn
  have hxr := abs_le.mp (abs_sub_magnitude_le_div hx hr hfinite)
  have hyr := abs_le.mp (abs_sub_magnitude_le_div hy hr hfinite)
  have hlt : (m : Rat) * 10 ^ k < (n + 1 : Nat) * 10 ^ k := by
    push_cast
    linarith
  have hgt : (n : Rat) * 10 ^ k < (m + 1 : Nat) * 10 ^ k := by
    push_cast
    linarith
  -- Each multiple is less than one unit above the other.
  have hlt : m < n + 1 := by exact_mod_cast lt_of_mul_lt_mul_right hlt hunit.le
  have hgt : n < m + 1 := by exact_mod_cast lt_of_mul_lt_mul_right hgt hunit.le
  omega

/-- Where the digits of the number reach up to the unit, they are cut to the decimal. -/
theorem value_cutDigits_eq (hn : n ≤ 10 ^ 15) (hk : k ≤ d.exponent + t)
    (hx : nearestRank (n * 10 ^ k) = r) (hd : nearestRank d.value = r) (hr : binade ≤ r)
    (hfinite : r < infinityRank) : (cutDigits r d t).value = n * 10 ^ k := by
  have hexponent : k ≤ (cutDigits r d t).exponent := by
    rw [← Int.cast_natCast (R := Rat) n] at hx
    exact le_exponent_cutDigits hk hx hd
  have hreads : nearestRank (cutDigits r d t).value = r :=
    eq_of_beq (reads_cutDigits (beq_of_eq hd) t)
  generalize cutDigits r d t = s at hexponent hreads ⊢
  obtain ⟨j, hj⟩ : ∃ j : Nat, s.exponent = j + k := ⟨(s.exponent - k).toNat, by omega⟩
  have hvalue : s.value = (s.coefficient * 10 ^ j : Nat) * 10 ^ k := by
    rw [Decimal.value, hj, zpow_add₀ (by norm_num), zpow_natCast]
    push_cast
    ring
  rw [hvalue] at hreads ⊢
  rw [eq_of_nearestRank_eq hn hx hreads hr hfinite]

/-- Where they do not, the decimal is the next power of ten. -/
theorem eq_ten_mul_of_lt (hn : 0 < n) (hk : d.exponent + t < k) (hc : d.coefficient < 10 ^ (t + 1))
    (hx : nearestRank (n * 10 ^ k) = r) (hd : d.value = magnitude r) (hr : binade ≤ r)
    (hfinite : r < infinityRank) : (n : Rat) * 10 ^ k = (10 : Nat) * 10 ^ (d.exponent + t) := by
  obtain ⟨j, rfl⟩ : ∃ j : Nat, k = j + (d.exponent + t + 1) :=
    ⟨(k - (d.exponent + t + 1)).toNat, by omega⟩
  have hunit : (0 : Rat) < 10 ^ (d.exponent + t + 1) := zpow_pos (by norm_num) _
  have hlt : magnitude r < 10 ^ (d.exponent + t + 1) := by
    rw [← hd]
    exact value_lt_of_coefficient_lt hc
  have hvalue : (n : Rat) * 10 ^ (j + (d.exponent + t + 1)) =
      (n * 10 ^ j : Nat) * 10 ^ (d.exponent + t + 1) := by
    rw [zpow_add₀ (by norm_num), zpow_natCast]
    push_cast
    ring
  rw [hvalue] at hx ⊢
  have hnear := abs_le.mp (abs_sub_magnitude_le_div hx hr hfinite)
  have hone : n * 10 ^ j < 2 := by
    have : (n * 10 ^ j : Nat) * (10 : Rat) ^ (d.exponent + t + 1) <
        (2 : Nat) * 10 ^ (d.exponent + t + 1) := by
      push_cast
      push_cast at hnear
      linarith
    exact_mod_cast lt_of_mul_lt_mul_right this hunit.le
  have hpos : 0 < n * 10 ^ j := by positivity
  have hcount : n * 10 ^ j = 1 := by omega
  rw [hcount, zpow_add₀ (by norm_num), zpow_one]
  push_cast
  ring

/-- The shortest decimal of the double nearest to a number of at most fifteen digits is that number. -/
theorem value_shortest_nearestRank (hn : n ≤ 10 ^ 15) (hlow : 2 ^ (-1022 : Int) ≤ (n : Rat) * 10 ^ k)
    (hfinite : nearestRank (n * 10 ^ k) < infinityRank) :
    (shortest (nearestRank (n * 10 ^ k))).value = n * 10 ^ k := by
  have hr := binade_le_nearestRank hlow
  have hn0 : 0 < n := by
    rw [Nat.pos_iff_ne_zero]
    rintro rfl
    rw [Nat.cast_zero, zero_mul] at hlow
    exact absurd (two_zpow_pos (-1022)) hlow.not_gt
  generalize hx : nearestRank (n * 10 ^ k) = r at hr hfinite ⊢
  have hvalue := value_expansion r
  have hd : nearestRank (expansion r).value = r := by rw [hvalue, nearestRank_magnitude hfinite]
  obtain ⟨t, hshortest, hc⟩ := exists_shortest_eq_cutDigits r
  rw [hshortest]
  -- Only a power of ten can have its unit above all digits of the double, and then it has a lower unit, too.
  rcases le_or_gt k ((expansion r).exponent + t) with hk | hk
  · exact value_cutDigits_eq hn hk hx hd hr hfinite
  · have hten := eq_ten_mul_of_lt hn0 hk hc hx hvalue hr hfinite
    rw [hten] at hx ⊢
    exact value_cutDigits_eq (by norm_num) le_rfl hx hd hr hfinite

end DeskCalculator.Binary64
