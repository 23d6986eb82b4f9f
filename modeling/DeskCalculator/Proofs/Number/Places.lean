import DeskCalculator.Number.Places
import DeskCalculator.Proofs.Number.Distance
import DeskCalculator.Proofs.Number.ShortestText

/-! # Rounding twice

What a double is written as is read back as the nearest double to the nearest multiple. A double is no
nearer to that multiple than the rounded one is. So the rounded double has the same nearest multiple,
rounding it again changes nothing, and it is a zero only if the multiple is one. It is finite, since the
largest finite double is a whole number.
-/
namespace DeskCalculator.Binary64

/-- The multiple of `10 ^ -places` nearest to `x`, of two the even one. -/
def roundedValue (places : Nat) (x : Rat) : Rat :=
  let scale := (10 : Rat) ^ places
  (halfEven (x * scale) : Rat) / scale

theorem scale_pos (places : Nat) : (0 : Rat) < 10 ^ places := pow_pos (by norm_num) places

theorem roundedValue_mono (places : Nat) {x y : Rat} (h : x ≤ y) :
    roundedValue places x ≤ roundedValue places y := by
  have hs := scale_pos places
  apply div_le_div_of_nonneg_right _ hs.le
  exact_mod_cast halfEven_mono (mul_le_mul_of_nonneg_right h hs.le)

theorem roundedValue_neg (places : Nat) (x : Rat) :
    roundedValue places (-x) = -roundedValue places x := by
  simp only [roundedValue, neg_mul, halfEven_neg]
  push_cast
  ring

theorem roundedValue_intCast (places : Nat) (n : Int) : roundedValue places n = n := by
  have hn : (n : Rat) * 10 ^ places = ((n * 10 ^ places : Int) : Rat) := by push_cast; rfl
  simp only [roundedValue]
  rw [hn, halfEven_intCast, ← hn, mul_div_cancel_right₀ _ (scale_pos places).ne']

@[simp] theorem roundedValue_zero (places : Nat) : roundedValue places 0 = 0 := by
  exact_mod_cast roundedValue_intCast places 0

/-- A distance in steps of `10 ^ -places`. -/
theorem abs_sub_div_scale (places : Nat) (x k : Rat) :
    |x - k / 10 ^ places| = |x * 10 ^ places - k| / 10 ^ places := by
  have := abs_sub_mul_unit (inv_pos.mpr (scale_pos places)) x k
  rwa [div_inv_eq_mul, ← div_eq_mul_inv, ← div_eq_mul_inv] at this

/-- What is no farther from the rounded value than the number is has the same rounded value. -/
theorem roundedValue_eq_of_abs_le {places : Nat} {x y : Rat}
    (h : |y - roundedValue places x| ≤ |x - roundedValue places x|) :
    roundedValue places y = roundedValue places x := by
  simp only [roundedValue, abs_sub_div_scale] at h ⊢
  rw [halfEven_eq_of_abs_le ((div_le_div_iff_of_pos_right (scale_pos places)).mp h)]

section ranks
variable (places : Nat) {r : Nat}

theorem roundedValue_magnitude_nonneg (r : Nat) : 0 ≤ roundedValue places (magnitude r) :=
  roundedValue_zero places ▸ roundedValue_mono places (magnitude_nonneg r)

def roundedRank (r : Nat) : Nat := nearestRank (roundedValue places (magnitude r))

theorem roundedRank_lt (h : r < infinityRank) : roundedRank places r < infinityRank := by
  have hle : r ≤ infinityRank - 1 := by omega
  obtain ⟨n, hn⟩ := exists_magnitude_eq (r := infinityRank - 1) (by decide)
  have hrounded : roundedValue places (magnitude r) ≤ magnitude (infinityRank - 1) := by
    have := roundedValue_mono places (magnitude_mono hle)
    rwa [hn, roundedValue_intCast, ← hn] at this
  have := nearestRank_mono hrounded
  rw [nearestRank_magnitude (by decide)] at this
  exact Nat.lt_of_le_of_lt this (by decide)

/-- The rounded double has the same nearest multiple as the double itself. -/
theorem roundedValue_magnitude_roundedRank (h : r < infinityRank) :
    roundedValue places (magnitude (roundedRank places r)) = roundedValue places (magnitude r) := by
  apply roundedValue_eq_of_abs_le
  rw [abs_sub_comm, abs_sub_comm (magnitude r)]
  exact abs_sub_magnitude_nearestRank_le (roundedValue_magnitude_nonneg places r)
    (roundedRank_lt places h) r

theorem roundedRank_roundedRank (h : r < infinityRank) :
    roundedRank places (roundedRank places r) = roundedRank places r := by
  rw [roundedRank, roundedValue_magnitude_roundedRank places h, roundedRank]

theorem roundedRank_eq_zero_iff (h : r < infinityRank) :
    roundedRank places r = 0 ↔ roundedValue places (magnitude r) = 0 := by
  constructor
  · intro h0
    rw [← roundedValue_magnitude_roundedRank places h, h0]
    simp
  · intro h0
    simp [roundedRank, h0]

end ranks

section doubles
variable {v : Float} (places : Nat)

theorem ofChars?_of_ne_minus {c : Char} (h : c ≠ '-') (cs : List Char) :
    ofChars? (c :: cs) =
      (Decimal.ofChars? (c :: cs)).map fun d => ofRank false (nearestRank d.value) := by
  unfold ofChars?
  split
  case h_1 heq => exact absurd (List.cons.inj heq).1 h
  case h_2 => rfl

/-- What is written with a fixed number of places is read back, with its sign. -/
theorem ofChars?_fixedChars (v : Float) :
    ofChars? (fixedChars places v) =
      some (ofRank (isNegative v) (roundedRank places (rank v))) := by
  have hnonneg : 0 ≤ halfEven (magnitude (rank v) * 10 ^ places) :=
    halfEven_nonneg (mul_nonneg (magnitude_nonneg (rank v)) (scale_pos places).le)
  obtain ⟨d, hd, hvalue⟩ :=
    Decimal.ofChars?_fixed places (halfEven (magnitude (rank v) * 10 ^ places)).toNat
  obtain ⟨c, cs, hc, hminus⟩ :=
    Decimal.exists_fixed_eq_cons places (halfEven (magnitude (rank v) * 10 ^ places)).toNat
  have hrank : nearestRank d.value = roundedRank places (rank v) := by
    rw [hvalue, roundedRank, roundedValue]
    congr 2
    exact_mod_cast Int.toNat_of_nonneg hnonneg
  unfold fixedChars
  cases hn : isNegative v with
  | true => simp [ofChars?, hd, hrank]
  | false =>
    rw [hc] at hd
    simp [hc, ofChars?_of_ne_minus hminus, hd, hrank]

/-- A rounded double keeps its sign unless it is a zero. -/
theorem roundTo_of_isFinite (h : isFinite v = true) :
    roundTo places v = ofRank (isNegative v && roundedRank places (rank v) != 0)
      (roundedRank places (rank v)) := by
  have hlt := roundedRank_lt places (of_decide_eq_true h)
  simp only [roundTo, if_pos h, ofChars?_fixedChars, Option.getD_some, isZero,
    rank_ofRank _ hlt.le, beq_iff_eq]
  split
  case isTrue h0 => simp only [h0, bne_self_eq_false, Bool.and_false]
  case isFalse h0 => rw [bne_iff_ne.mpr h0, Bool.and_true]

theorem rank_roundTo (h : isFinite v = true) :
    rank (roundTo places v) = roundedRank places (rank v) := by
  rw [roundTo_of_isFinite places h, rank_ofRank _ (roundedRank_lt places (of_decide_eq_true h)).le]

theorem isNegative_roundTo (h : isFinite v = true) : isNegative (roundTo places v) =
    (isNegative v && roundedRank places (rank v) != 0) := by
  rw [roundTo_of_isFinite places h,
    isNegative_ofRank _ (roundedRank_lt places (of_decide_eq_true h)).le]

theorem isFinite_roundTo (h : isFinite v = true) : isFinite (roundTo places v) = true := by
  rw [isFinite, rank_roundTo places h]
  exact decide_eq_true (roundedRank_lt places (of_decide_eq_true h))

/-- Rounding again changes nothing if it leaves the rank alone. -/
theorem roundTo_roundTo_of_roundedRank_eq {finer : Nat} (h : isFinite v = true)
    (hrank : roundedRank finer (roundedRank places (rank v)) = roundedRank places (rank v)) :
    roundTo finer (roundTo places v) = roundTo places v := by
  rw [roundTo_of_isFinite finer (isFinite_roundTo places h), rank_roundTo places h,
    isNegative_roundTo places h, hrank, roundTo_of_isFinite places h, Bool.and_assoc, Bool.and_self]

theorem roundTo_roundTo (h : isFinite v = true) :
    roundTo places (roundTo places v) = roundTo places v :=
  roundTo_roundTo_of_roundedRank_eq places h
    (roundedRank_roundedRank places (of_decide_eq_true h))

theorem isNegative_of_isZero_roundTo (h : isFinite v = true) (hzero : isZero (roundTo places v) = true) :
    isNegative (roundTo places v) = false := by
  have h0 : roundedRank places (rank v) = 0 := by
    rw [← rank_roundTo places h]
    exact eq_of_beq hzero
  simp [isNegative_roundTo places h, h0]

/-- A rounded double can be written in an expression. -/
theorem isLiteral_roundTo (h : isFinite v = true) : IsLiteral (roundTo places v) := by
  refine ⟨isFinite_roundTo places h, ?_⟩
  rintro ⟨hzero, hnegative⟩
  rw [isNegative_of_isZero_roundTo places h hzero] at hnegative
  cases hnegative

end doubles

end DeskCalculator.Binary64
