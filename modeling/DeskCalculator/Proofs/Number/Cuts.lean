import DeskCalculator.Proofs.Number.Distance
import DeskCalculator.Proofs.Number.ShortestText

/-! # Cutting digits

The neighbours of a number at a cut have it between them, and what reads as the same double on either side of
a neighbour shows that the neighbour does, too. So a multiple of a power of ten that reads as the double
stops the search there: no more digits are left than down to that power.
-/
namespace DeskCalculator.Binary64

section cuts
variable {r cut k : Nat} {d e : Decimal}

theorem exponent_neighbour (h : neighbour? r d cut = some e) : e.exponent = d.exponent + cut := by
  simp only [neighbour?] at h
  split at h
  case h_1 =>
    cases h
    split <;> rfl
  case h_2 | h_3 =>
    cases h
    rfl
  case h_4 => cases h

/-- No fewer digits are cut than a neighbour leaves. -/
theorem exponent_add_le_cutDigits (h : k = 0 ∨ neighbour? r d k ≠ none) (hk : k ≤ cut) :
    d.exponent + k ≤ (cutDigits r d cut).exponent := by
  induction cut with
  | zero =>
    obtain rfl := Nat.le_zero.mp hk
    simp [cutDigits]
  | succ cut ih =>
    rw [cutDigits]
    cases hn : neighbour? r d (cut + 1) with
    | some e =>
      have := exponent_neighbour hn
      simp only [Option.getD_some]
      omega
    | none =>
      have hne : k ≠ cut + 1 := by
        rintro rfl
        exact h.resolve_left (by omega) hn
      exact ih (by omega)

/-- The neighbours at a cut have the number between them. -/
theorem value_between_neighbours (d : Decimal) (cut : Nat) :
    Decimal.value ⟨d.coefficient / Nat.pow 10 cut, d.exponent + cut⟩ ≤ d.value ∧
      d.value ≤ Decimal.value ⟨d.coefficient / Nat.pow 10 cut + 1, d.exponent + cut⟩ := by
  obtain ⟨c, e⟩ := d
  have hpow : (10 : Rat) ^ (e + cut) = (10 ^ cut : Nat) * 10 ^ e := by
    rw [zpow_add₀ (by norm_num), zpow_natCast, mul_comm]
    push_cast
    rfl
  have hten : (0 : Rat) ≤ 10 ^ e := zpow_nonneg (by norm_num) e
  have hdiv := Nat.div_add_mod c (10 ^ cut)
  have hmod := Nat.mod_lt c (Nat.pow_pos (n := cut) (by norm_num : 0 < 10))
  simp only [Decimal.value, hpow, Nat.pow_eq, ← mul_assoc]
  constructor
  · refine mul_le_mul_of_nonneg_right ?_ hten
    exact_mod_cast (show c / 10 ^ cut * 10 ^ cut ≤ c from Nat.div_mul_le_self c _)
  · refine mul_le_mul_of_nonneg_right ?_ hten
    have : c ≤ (c / 10 ^ cut + 1) * 10 ^ cut := by
      rw [Nat.add_mul, Nat.one_mul, Nat.mul_comm]
      omega
    exact_mod_cast this

theorem nearestRank_eq_of_between {x y z : Rat} (hx : nearestRank x = r) (hz : nearestRank z = r)
    (hxy : x ≤ y) (hyz : y ≤ z) : nearestRank y = r :=
  Nat.le_antisymm ((nearestRank_mono hyz).trans_eq hz) (hx.symm.trans_le (nearestRank_mono hxy))

theorem neighbour?_eq_none_iff : neighbour? r d cut = none ↔
    reads r ⟨d.coefficient / Nat.pow 10 cut, d.exponent + cut⟩ = false ∧
      reads r ⟨d.coefficient / Nat.pow 10 cut + 1, d.exponent + cut⟩ = false := by
  simp only [neighbour?]
  split <;> simp_all

/-- A neighbour reads as the same double as the number does if a multiple of their unit does. -/
theorem neighbour?_ne_none {n : Int} (hr : nearestRank (n * 10 ^ (d.exponent + cut)) = r)
    (hd : nearestRank d.value = r) : neighbour? r d cut ≠ none := by
  obtain ⟨hlower, hupper⟩ := value_between_neighbours d cut
  rw [Ne, neighbour?_eq_none_iff]
  generalize d.coefficient / Nat.pow 10 cut = q at hlower hupper ⊢
  have hunit : ∀ m : Nat, Decimal.value ⟨m, d.exponent + cut⟩ =
      ((m : Int) : Rat) * 10 ^ (d.exponent + cut) := by
    intro m
    rw [Decimal.value, Int.cast_natCast]
  have hle : ∀ {i j : Int}, i ≤ j →
      (i : Rat) * 10 ^ (d.exponent + cut) ≤ j * 10 ^ (d.exponent + cut) := by
    intro i j hij
    exact mul_le_mul_of_nonneg_right (Int.cast_le.mpr hij) (zpow_nonneg (by norm_num) _)
  rintro ⟨hno, hno'⟩
  rcases le_or_gt n q with hn | hn
  · rw [hunit] at hlower
    have := nearestRank_eq_of_between hr hd (hle hn) hlower
    rw [reads, hunit, this, beq_self_eq_true] at hno
    cases hno
  · rw [hunit] at hupper
    have := nearestRank_eq_of_between hd hr hupper (hle (by omega))
    rw [reads, hunit, this, beq_self_eq_true] at hno'
    cases hno'

/-- No digit is left below the unit of a multiple that reads as the double. -/
theorem le_exponent_cutDigits {n j : Int} (hj : j ≤ d.exponent + cut) (hr : nearestRank (n * 10 ^ j) = r)
    (hd : nearestRank d.value = r) : j ≤ (cutDigits r d cut).exponent := by
  rcases le_or_gt j d.exponent with hle | hgt
  · have := exponent_add_le_cutDigits (r := r) (d := d) (.inl rfl) (Nat.zero_le cut)
    omega
  · obtain ⟨k, rfl⟩ : ∃ k : Nat, j = d.exponent + k := ⟨(j - d.exponent).toNat, by omega⟩
    exact exponent_add_le_cutDigits (.inr (neighbour?_ne_none hr hd)) (by omega)

theorem value_lt_of_coefficient_lt (h : d.coefficient < 10 ^ (cut + 1)) :
    d.value < 10 ^ (d.exponent + cut + 1) := by
  have hsplit : (10 : Rat) ^ (d.exponent + cut + 1) = (10 ^ (cut + 1) : Nat) * 10 ^ d.exponent := by
    rw [add_assoc, add_comm, zpow_add₀ (by norm_num)]
    push_cast
    rfl
  rw [hsplit]
  apply mul_lt_mul_of_pos_right _ (zpow_pos (by norm_num) _)
  exact_mod_cast h

/-- All digits but the first are tried. -/
theorem exists_shortest_eq_cutDigits (r : Nat) :
    ∃ t, shortest r = cutDigits r (expansion r) t ∧ (expansion r).coefficient < 10 ^ (t + 1) := by
  obtain ⟨t, ht⟩ : ∃ t, (Nat.toDigits 10 (expansion r).coefficient).length = t + 1 :=
    Nat.exists_eq_succ_of_ne_zero (List.length_pos_of_ne_nil Nat.toDigits_ne_nil).ne'
  refine ⟨t, ?_, (Nat.length_toDigits_le_iff (by norm_num) (by omega)).mp ht.le⟩
  simp only [shortest, ht, Nat.add_sub_cancel]

end cuts

end DeskCalculator.Binary64
