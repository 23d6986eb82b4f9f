import Mathlib
import DeskCalculator.Number.Binary64

/-! # Doubles as words

A double is its sign and its rank, and every rank up to the one of infinity is taken: a word that is
not one of the further ones for `NaN` is the bit pattern of the double that is made of it. That packing undoes
unpacking is known to the library, in a part of it that none of Mathlib's own modules imports.
-/
namespace DeskCalculator.Binary64
open Float.Model (Format)
open Float.Model.UnpackedFloat

theorem toBits_ofBits {w : UInt64} (h : w.toNat % signWeight ≤ infinityRank) :
    (Float.ofBits w).toBits = w := by
  have hw : Format.binary64.Valid w.toBitVec := by
    constructor
    intro he hm
    have he' : w.toNat >>> 52 % 2048 = 2047 := congrArg BitVec.toNat he
    have hm' : w.toNat % 2 ^ 52 ≠ 0 := by
      intro h
      exact hm (BitVec.eq_of_toNat_eq h)
    rw [Nat.shiftRight_eq_div_pow] at he'
    simp only [infinityRank, signWeight, binade] at h
    omega
  change UInt64.ofBitVec (pack Format.binary64 (unpack Format.binary64 w.toBitVec)) = w
  rw [pack_unpack_of_valid hw]

theorem toNat_toBits (v : Float) :
    v.toBits.toNat = if isNegative v then signWeight + rank v else rank v := by
  have := v.toBits.toNat_lt
  simp only [isNegative, rank, signWeight, binade, decide_eq_true_eq]
  split <;> omega

/-- A double is determined by its sign and its rank. -/
theorem ofRank_rank (v : Float) : ofRank (isNegative v) (rank v) = v := by
  rw [ofRank, ← toNat_toBits, UInt64.ofNat_toNat, Float.ofBits_toBits]

theorem toNat_toBits_ofRank (negative : Bool) {r : Nat} (h : r ≤ infinityRank) :
    (ofRank negative r).toBits.toNat = if negative then signWeight + r else r := by
  have hw : (UInt64.ofNat (if negative then signWeight + r else r)).toNat =
      if negative then signWeight + r else r := by
    apply UInt64.toNat_ofNat_of_lt
    change _ < 18446744073709551616
    simp only [infinityRank, signWeight, binade] at h ⊢
    split <;> omega
  rw [ofRank, toBits_ofBits, hw]
  rw [hw]
  simp only [infinityRank, signWeight, binade] at h ⊢
  split <;> omega

theorem rank_ofRank (negative : Bool) {r : Nat} (h : r ≤ infinityRank) :
    rank (ofRank negative r) = r := by
  rw [rank, toNat_toBits_ofRank negative h]
  simp only [infinityRank, signWeight, binade] at h ⊢
  split <;> omega

theorem isNegative_ofRank (negative : Bool) {r : Nat} (h : r ≤ infinityRank) :
    isNegative (ofRank negative r) = negative := by
  rw [isNegative, toNat_toBits_ofRank negative h]
  simp only [infinityRank, signWeight, binade] at h ⊢
  cases negative with
  | true => simp
  | false => simp; omega

end DeskCalculator.Binary64
