import DeskCalculator.Number.Shortest
import DeskCalculator.Proofs.Number.Decimals
import DeskCalculator.Proofs.Number.Nearest

/-! # The text of a double

The shortest decimal of a finite double has that double as the nearest one: digits are only ever cut
when this stays so, and it holds of all digits together.
-/
namespace DeskCalculator.Binary64

theorem value_expansion (r : Nat) : (expansion r).value = magnitude r := by
  simp only [expansion, magnitude]
  generalize r - lift r * binade = m
  generalize (lift r : Int) - 1074 = e
  by_cases h : 0 ≤ e
  · rw [if_pos h]
    obtain ⟨n, rfl⟩ := Int.eq_ofNat_of_zero_le h
    simp [Decimal.value, Nat.shiftLeft_eq]
  · rw [if_neg h]
    obtain ⟨n, rfl⟩ : ∃ n : Nat, e = -n := ⟨(-e).toNat, by omega⟩
    have h10 : (10 : Rat) = 5 * 2 := by norm_num
    simp only [Decimal.value, neg_neg, Int.toNat_natCast, Nat.pow_eq, zpow_neg, zpow_natCast, h10,
      mul_pow]
    push_cast
    field_simp

theorem reads_neighbour {r : Nat} {d e : Decimal} {cut : Nat}
    (h : neighbour? r d cut = some e) : reads r e = true := by
  simp only [neighbour?] at h
  split at h
  case h_1 hl hu =>
    cases h
    split
    · exact hl
    · exact hu
  case h_2 hl _ => cases h; exact hl
  case h_3 _ hu => cases h; exact hu
  case h_4 => cases h

theorem reads_cutDigits {r : Nat} {d : Decimal} (h : reads r d = true) (cut : Nat) :
    reads r (cutDigits r d cut) = true := by
  induction cut with
  | zero => exact h
  | succ cut ih =>
    rw [cutDigits]
    cases hn : neighbour? r d (cut + 1) with
    | none => exact ih
    | some e => exact reads_neighbour hn

/-- The shortest decimal reads as the double it was made of. -/
theorem nearestRank_shortest {r : Nat} (h : r < infinityRank) :
    nearestRank (shortest r).value = r := by
  have he : reads r (expansion r) = true := by
    rw [reads, value_expansion, nearestRank_magnitude h, beq_self_eq_true]
  exact eq_of_beq (reads_cutDigits he _)

theorem shortest_zero : shortest 0 = ⟨0, -1074⟩ := by decide +kernel

theorem value_shortest_zero : (shortest 0).value = 0 := by
  rw [shortest_zero, Decimal.value, Nat.cast_zero, zero_mul]

theorem chars_of_isFinite {v : Float} (h : isFinite v = true) :
    chars v = if isNegative v then '-' :: (shortest (rank v)).plain
      else (shortest (rank v)).plain := by
  have hr : rank v < infinityRank := of_decide_eq_true h
  have hn : ¬ infinityRank < rank v := by omega
  have he : ¬ rank v = infinityRank := by omega
  simp only [chars, if_neg hn, if_neg he]

/-- A finite double that is not the negative zero: one that an expression can contain. -/
def IsLiteral (v : Float) : Prop := isFinite v = true ∧ ¬(isZero v = true ∧ isNegative v = true)

instance (v : Float) : Decidable (IsLiteral v) := inferInstanceAs (Decidable (_ ∧ _))

theorem IsLiteral.rank_pos {v : Float} (h : IsLiteral v) (hn : isNegative v = true) : 0 < rank v := by
  have hz : isZero v ≠ true := by
    intro hz
    exact h.2 ⟨hz, hn⟩
  have hne : rank v ≠ 0 := by
    intro h0
    exact hz (beq_of_eq h0)
  omega

end DeskCalculator.Binary64
