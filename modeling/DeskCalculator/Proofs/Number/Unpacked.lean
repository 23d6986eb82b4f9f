import DeskCalculator.Proofs.Number.Distance

/-! # Negation and order of doubles

The arithmetic of doubles takes the word of a finite double apart into sign, mantissa and exponent, and
these are read off its sign and its rank. So `-` only changes the sign, and `≤` compares exact values.
-/
namespace DeskCalculator.Binary64
open Float.Model
open Float.Model.UnpackedFloat

def sign (v : Float) : Sign := if isNegative v then .negative else .positive

def word (v : Float) : BitVec Format.binary64.numBits := v.toBits.toBitVec

variable {v w : Float}

theorem ofBitVec_unpackSign (v : Float) : Sign.ofBitVec (unpackSign (word v)) = sign v := by
  have hlt := v.toBits.toNat_lt
  have hbit : (unpackSign (word v)).toNat = v.toBits.toNat >>> 63 % 2 := rfl
  have hzero : unpackSign (word v) = 0#1 ↔ ¬signWeight ≤ v.toBits.toNat := by
    rw [← BitVec.toNat_inj, hbit, Nat.shiftRight_eq_div_pow]
    change _ = 0 ↔ _
    simp only [signWeight, binade]
    omega
  by_cases h : signWeight ≤ v.toBits.toNat <;> simp [Sign.ofBitVec, sign, isNegative, hzero, h]

theorem toNat_unpackExponent (v : Float) : (unpackExponent (word v)).toNat = rank v / binade := by
  have hbits : (unpackExponent (word v)).toNat = v.toBits.toNat >>> 52 % 2048 := rfl
  rw [hbits, Nat.shiftRight_eq_div_pow]
  simp only [rank, signWeight, binade]
  omega

theorem toNat_unpackMantissa (v : Float) : (unpackMantissa (word v)).toNat = rank v % binade := by
  have hbits : (unpackMantissa (word v)).toNat = v.toBits.toNat % 2 ^ 52 := rfl
  rw [hbits]
  simp only [rank, signWeight, binade]
  omega

theorem unpackExponent_ne_of_isFinite (h : isFinite v = true) : unpackExponent (word v) ≠ -1#11 := by
  have hlt : rank v < infinityRank := of_decide_eq_true h
  intro heq
  have := congrArg BitVec.toNat heq
  rw [toNat_unpackExponent] at this
  change rank v / binade = 2047 at this
  simp only [infinityRank, binade] at hlt this
  omega

theorem unpack_of_rank_eq_zero (h : rank v = 0) : v.toModel.unpack = .zero (sign v) := by
  have hfinite : isFinite v = true := by simp [isFinite, h]
  have hexponent : unpackExponent (word v) = 0#11 := by
    rw [← BitVec.toNat_inj, toNat_unpackExponent, h]
    rfl
  have hmantissa : unpackMantissa (word v) = 0#52 := by
    rw [← BitVec.toNat_inj, toNat_unpackMantissa, h]
    rfl
  change UnpackedFloat.unpack Format.binary64 (word v) = _
  rw [UnpackedFloat.unpack, if_neg (unpackExponent_ne_of_isFinite hfinite), if_pos hexponent,
    dif_pos hmantissa, ofBitVec_unpackSign]

theorem unpack_of_rank_ne_zero (h : isFinite v = true) (h0 : rank v ≠ 0) :
    ∃ hm, v.toModel.unpack = .finite (sign v) (mantissa v) ((lift (rank v) : Int) - 1074) hm := by
  have hE := toNat_unpackExponent v
  have hM := toNat_unpackMantissa v
  have hbias : (Format.binary64.exponentBias : Int) +
      (Format.binary64.mantissaBitsWithoutImplicit : Int) = 1075 := rfl
  have hparts : ∀ {m : Nat} {e : Int} (hm : 0 < m), m = mantissa v → e = (lift (rank v) : Int) - 1074 →
      ∃ hm', UnpackedFloat.finite (sign v) m e hm =
        .finite (sign v) (mantissa v) ((lift (rank v) : Int) - 1074) hm' := by
    rintro m e hm rfl rfl
    exact ⟨hm, rfl⟩
  change ∃ hm, UnpackedFloat.unpack Format.binary64 (word v) = _
  simp only [UnpackedFloat.unpack, if_neg (unpackExponent_ne_of_isFinite h), ofBitVec_unpackSign,
    hE, hbias]
  split
  case isTrue hexponent =>
    have hlow : rank v / binade = 0 := by
      rw [← hE, hexponent]
      rfl
    split
    case isTrue hmantissa =>
      have : rank v % binade = 0 := by
        rw [← hM, hmantissa]
        rfl
      simp only [binade] at hlow this
      omega
    case isFalse =>
      apply hparts
      · simp only [hM, mantissa, lift, binade] at hlow ⊢
        omega
      · simp only [lift, hlow]
        omega
  case isFalse hexponent =>
    have hhigh : rank v / binade ≠ 0 := by
      rw [← hE]
      intro heq
      exact hexponent (BitVec.eq_of_toNat_eq heq)
    have hbit : (1#1 ++ unpackMantissa (word v)).toNat = binade + rank v % binade := by
      rw [← hM, BitVec.toNat_append, ← Nat.shiftLeft_add_eq_or_of_lt (unpackMantissa (word v)).isLt]
      rfl
    apply hparts
    · rw [hbit]
      simp only [mantissa, lift, binade] at hhigh ⊢
      omega
    · simp only [lift]
      omega

/-- Negation changes the sign and nothing else. -/
theorem neg_eq_ofRank (h : isFinite v = true) : -v = ofRank (!isNegative v) (rank v) := by
  have hle : rank v ≤ infinityRank := (of_decide_eq_true h : rank v < infinityRank).le
  have hrank := rank_ofRank (!isNegative v) hle
  have hsign : sign (ofRank (!isNegative v) (rank v)) = -sign v := by
    rw [sign, isNegative_ofRank _ hle, sign]
    cases isNegative v <;> rfl
  have hunpack : v.toModel.unpack.neg = (ofRank (!isNegative v) (rank v)).toModel.unpack := by
    by_cases h0 : rank v = 0
    · rw [unpack_of_rank_eq_zero h0, unpack_of_rank_eq_zero (hrank.trans h0), hsign]
      rfl
    · have hfinite : isFinite (ofRank (!isNegative v) (rank v)) = true := by
        rw [isFinite, hrank]
        exact h
      obtain ⟨_, hv⟩ := unpack_of_rank_ne_zero h h0
      obtain ⟨_, hw⟩ := unpack_of_rank_ne_zero hfinite (by rwa [hrank])
      simp only [hv, hw, UnpackedFloat.neg, mantissa, hrank, hsign]
  change Float.ofModel (Float.Model.pack v.toModel.unpack.neg) = _
  rw [hunpack]
  exact Float.ofBits_toBits _

theorem isFinite_neg (h : isFinite v = true) : isFinite (-v) = true := by
  have hlt : rank v < infinityRank := of_decide_eq_true h
  rw [isFinite, neg_eq_ofRank h, rank_ofRank _ hlt.le]
  exact h

theorem value_neg (h : isFinite v = true) : value (-v) = -value v := by
  have hle : rank v ≤ infinityRank := (of_decide_eq_true h : rank v < infinityRank).le
  rw [value, neg_eq_ofRank h, isNegative_ofRank _ hle, rank_ofRank _ hle, value]
  cases isNegative v <;> simp

theorem magnitude_le_iff {r s : Nat} (hr : r < infinityRank) (hs : s < infinityRank) :
    magnitude r ≤ magnitude s ↔ r ≤ s := by
  refine ⟨fun h => ?_, magnitude_mono⟩
  have := nearestRank_mono h
  rwa [nearestRank_magnitude hr, nearestRank_magnitude hs] at this

theorem le_iff_le_unpack : v ≤ w ↔ v.toModel.unpack.le w.toModel.unpack = true := by
  change decide (v.toModel ≤ w.toModel) = true ↔ _
  rw [decide_eq_true_iff]
  rfl

theorem isLE_compare_then (e f : Int) (m n : Nat) :
    ((compare e f).then (compare m n)).isLE = true ↔ e < f ∨ e = f ∧ m ≤ n := by
  rcases lt_trichotomy e f with h | rfl | h
  · simp [Int.compare_eq_lt.mpr h, h]
  · simp [Nat.isLE_compare]
  · simp [Int.compare_eq_gt.mpr h, h.ne', h.le]

/-- Exponents first and mantissas then compare as the ranks do. -/
theorem rank_le_iff (v w : Float) : rank v ≤ rank w ↔
    (lift (rank v) : Int) - 1074 < (lift (rank w) : Int) - 1074 ∨
      (lift (rank v) : Int) - 1074 = (lift (rank w) : Int) - 1074 ∧ mantissa v ≤ mantissa w := by
  simp only [mantissa, lift, binade]
  omega

section unpacked
variable {m n : Nat} {e f : Int} (hm : 0 < m) (hn : 0 < n)

theorem zero_le_zero (s t : Sign) : (UnpackedFloat.zero s).le (.zero t) = true := rfl

theorem zero_le_finite_iff (s t : Sign) :
    (UnpackedFloat.zero s).le (.finite t m e hm) = true ↔ t = .positive := by
  cases t <;> simp [UnpackedFloat.le, UnpackedFloat.compare]

theorem finite_le_zero_iff (s t : Sign) :
    (UnpackedFloat.finite t m e hm).le (.zero s) = true ↔ t = .negative := by
  cases t <;> simp [UnpackedFloat.le, UnpackedFloat.compare]

theorem finite_le_finite_iff (s t : Sign) :
    (UnpackedFloat.finite s m e hm).le (.finite t n f hn) = true ↔
      match s, t with
      | .positive, .positive => e < f ∨ e = f ∧ m ≤ n
      | .negative, .negative => f < e ∨ f = e ∧ n ≤ m
      | .negative, .positive => True
      | .positive, .negative => False := by
  cases s with
  | negative =>
    cases t with
    | negative =>
      simp [UnpackedFloat.le, UnpackedFloat.compare, Ordering.swap_then, Int.compare_swap,
        Nat.compare_swap, isLE_compare_then]
    | positive => simp [UnpackedFloat.le, UnpackedFloat.compare]
  | positive =>
    cases t with
    | negative => simp [UnpackedFloat.le, UnpackedFloat.compare]
    | positive => simp [UnpackedFloat.le, UnpackedFloat.compare, isLE_compare_then]

end unpacked

/-- Finite doubles are compared as their values are. -/
theorem le_iff_value_le (hv : isFinite v = true) (hw : isFinite w = true) :
    v ≤ w ↔ value v ≤ value w := by
  have hmagnitude := magnitude_le_iff (of_decide_eq_true hv) (of_decide_eq_true hw)
  have hmagnitude' := magnitude_le_iff (of_decide_eq_true hw) (of_decide_eq_true hv)
  rw [le_iff_le_unpack]
  by_cases hv0 : rank v = 0 <;> by_cases hw0 : rank w = 0
  · rw [unpack_of_rank_eq_zero hv0, unpack_of_rank_eq_zero hw0, zero_le_zero,
      value_of_isZero (beq_of_eq hv0), value_of_isZero (beq_of_eq hw0)]
    simp
  · obtain ⟨_, hunpack⟩ := unpack_of_rank_ne_zero hw hw0
    have := magnitude_pos (Nat.pos_of_ne_zero hw0)
    rw [unpack_of_rank_eq_zero hv0, hunpack, zero_le_finite_iff, value_of_isZero (beq_of_eq hv0)]
    cases hn : isNegative w with
    | false => simp [sign, hn, value_of_not_isNegative hn, this.le]
    | true => simp [sign, hn, value_of_isNegative hn, this]
  · obtain ⟨_, hunpack⟩ := unpack_of_rank_ne_zero hv hv0
    have := magnitude_pos (Nat.pos_of_ne_zero hv0)
    rw [unpack_of_rank_eq_zero hw0, hunpack, finite_le_zero_iff, value_of_isZero (beq_of_eq hw0)]
    cases hn : isNegative v with
    | false => simp [sign, hn, value_of_not_isNegative hn, this]
    | true => simp [sign, hn, value_of_isNegative hn, this.le]
  · obtain ⟨_, hvunpack⟩ := unpack_of_rank_ne_zero hv hv0
    obtain ⟨_, hwunpack⟩ := unpack_of_rank_ne_zero hw hw0
    have hvpos := magnitude_pos (Nat.pos_of_ne_zero hv0)
    have hwpos := magnitude_pos (Nat.pos_of_ne_zero hw0)
    rw [hvunpack, hwunpack, finite_le_finite_iff]
    cases hm : isNegative v with
    | false =>
      cases hn : isNegative w with
      | false => simp [sign, hm, hn, value_of_not_isNegative, hmagnitude, rank_le_iff]
      | true =>
        have : -magnitude (rank w) < magnitude (rank v) := by linarith
        simp [sign, hm, hn, value_of_not_isNegative, value_of_isNegative, this]
    | true =>
      cases hn : isNegative w with
      | false =>
        have : -magnitude (rank v) ≤ magnitude (rank w) := by linarith
        simp [sign, hm, hn, value_of_not_isNegative, value_of_isNegative, this]
      | true => simp [sign, hm, hn, value_of_isNegative, hmagnitude', rank_le_iff]

end DeskCalculator.Binary64
