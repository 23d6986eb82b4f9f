import DeskCalculator.Proofs.Number.Places

/-! # Rounding is exact

The text of a rounded double stands for the multiple of `10 ^ -places` that is nearest to the exact value.
Reading it gives the double nearest to this multiple, so the two roundings together move a number by at
most one step: half of it to the multiple, and from there no farther than back.
-/
namespace DeskCalculator.Binary64

/-- Whether no other multiple of `10 ^ -places` is as near to `x` as the `n`-th one, unless `n` is even. -/
def IsNearestMultiple (places : Nat) (x : Rat) (n : Int) : Prop :=
  ∀ m : Int, m ≠ n → |x - n / 10 ^ places| < |x - m / 10 ^ places| ∨
    |x - n / 10 ^ places| = |x - m / 10 ^ places| ∧ n % 2 = 0

/-- There is exactly one such multiple. -/
theorem isNearestMultiple_iff {places : Nat} {x : Rat} {n : Int} :
    IsNearestMultiple places x n ↔ n = halfEven (x * 10 ^ places) := by
  have hs := scale_pos places
  simp only [IsNearestMultiple, abs_sub_div_scale, div_lt_div_iff_of_pos_right hs, div_left_inj' hs.ne',
    eq_halfEven_iff]

theorem abs_sub_roundedValue_le (places : Nat) (x : Rat) :
    |x - roundedValue places x| ≤ 1 / 10 ^ places / 2 := by
  have hhalf := (roundsTo_halfEven (x * 10 ^ places)).le_half
  calc |x - roundedValue places x| = |x * 10 ^ places - halfEven (x * 10 ^ places)| / 10 ^ places := by
        rw [roundedValue, abs_sub_div_scale]
    _ ≤ 1 / 2 / 10 ^ places := div_le_div_of_nonneg_right hhalf (scale_pos places).le
    _ = 1 / 10 ^ places / 2 := by ring

section rounded
variable {v : Float} (places : Nat)

/-- Both roundings together: the double nearest to the nearest multiple. -/
theorem roundTo_eq_nearest (h : isFinite v = true) :
    roundTo places v = nearest (roundedValue places (value v)) := by
  have hrank := of_decide_eq_true h
  have hnonneg := roundedValue_magnitude_nonneg places (rank v)
  rw [roundTo_of_isFinite places h]
  cases hn : isNegative v with
  | false =>
    rw [value_of_not_isNegative hn, nearest_of_nonneg hnonneg]
    rfl
  | true =>
    rw [value_of_isNegative hn, roundedValue_neg]
    by_cases h0 : roundedRank places (rank v) = 0
    · rw [(roundedRank_eq_zero_iff places hrank).mp h0, neg_zero, nearest_of_nonneg le_rfl, h0]
      simp
    · have hpos : 0 < roundedValue places (magnitude (rank v)) :=
        lt_of_le_of_ne hnonneg fun heq => h0 ((roundedRank_eq_zero_iff places hrank).mpr heq.symm)
      rw [nearest_neg_of_pos hpos, ← roundedRank, bne_iff_ne.mpr h0]
      rfl

theorem isNearest_roundTo (h : isFinite v = true) :
    IsNearest (roundedValue places (value v)) (roundTo places v) := by
  have hfinite := isFinite_roundTo places h
  rw [roundTo_eq_nearest places h] at hfinite ⊢
  exact isNearest_nearest hfinite

theorem abs_value_roundTo_sub_le (h : isFinite v = true) :
    |value (roundTo places v) - value v| ≤ 1 / 10 ^ places := by
  have hmultiple := abs_sub_roundedValue_le places (value v)
  have hback := (isNearest_roundTo places h).abs_sub_le h
  rw [abs_sub_comm _ (value v)] at hback
  calc |value (roundTo places v) - value v|
      ≤ |value (roundTo places v) - roundedValue places (value v)| +
          |roundedValue places (value v) - value v| := abs_sub_le _ _ _
    _ ≤ 1 / 10 ^ places / 2 + 1 / 10 ^ places / 2 := by
        rw [abs_sub_comm _ (roundedValue places (value v)), abs_sub_comm _ (value v)]
        exact add_le_add (hback.trans hmultiple) hmultiple
    _ = 1 / 10 ^ places := add_halves _

/-- A finite double is rounded to the double nearest to the nearest multiple of `10 ^ -places`. Its written
form is always read back, and the result is at most one step away and never the negative zero. -/
theorem roundTo_nearest_multiple (h : isFinite v = true) :
    (∃ n : Int, (∀ m, IsNearestMultiple places (value v) m ↔ m = n) ∧
        IsNearest ((n : Rat) / 10 ^ places) (roundTo places v)) ∧
      isFinite (roundTo places v) = true ∧
      (isZero (roundTo places v) = true → isNegative (roundTo places v) = false) ∧
      (∃ r, ofChars? (fixedChars places v) = some r ∧
        roundTo places v = if isZero r then ofRank false 0 else r) ∧
      |value (roundTo places v) - value v| ≤ 1 / 10 ^ places := by
  refine ⟨⟨_, fun _ => isNearestMultiple_iff, isNearest_roundTo places h⟩,
    isFinite_roundTo places h, isNegative_of_isZero_roundTo places h,
    ⟨_, ofChars?_fixedChars places v, ?_⟩, abs_value_roundTo_sub_le places h⟩
  simp only [roundTo, if_pos h, ofChars?_fixedChars, Option.getD_some]

/-- The tie `-0.25` goes to `-0.2`, which is no double itself. -/
theorem roundTo_nearest_multiple_tie :
    isFinite (-0.25) = true ∧ IsNearestMultiple 1 (value (-0.25)) (-2) ∧
      IsNearest (-2 / 10) (roundTo 1 (-0.25)) := by
  have h : isFinite (-0.25) = true := by decide +kernel
  have htwo : IsNearestMultiple 1 (value (-0.25)) (-2) :=
    isNearestMultiple_iff.mpr (by decide +kernel)
  obtain ⟨n, hn, hnearest⟩ := (roundTo_nearest_multiple 1 h).1
  obtain rfl : -2 = n := (hn (-2)).mp htwo
  exact ⟨h, htwo, by simpa using hnearest⟩

end rounded

end DeskCalculator.Binary64
