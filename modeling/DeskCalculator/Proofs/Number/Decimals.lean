import Mathlib.Algebra.Order.Field.Rat
import Mathlib.Data.List.TakeWhile
import Mathlib.Tactic.FieldSimp
import Mathlib.Tactic.NormNum
import Mathlib.Tactic.Ring
import DeskCalculator.Number.Decimal

/-! # Reading decimals back

What `plain` writes begins with a digit, goes on with digits and a point, and is read by `ofChars`
as a decimal of the same value.
-/
namespace DeskCalculator.Decimal

theorem value_nonneg (d : Decimal) : 0 ≤ d.value :=
  mul_nonneg (Nat.cast_nonneg _) (zpow_nonneg (by norm_num) _)

theorem ofDigitChars_concat (digits : List Char) (c : Char) :
    Nat.ofDigitChars 10 (digits ++ [c]) 0 =
      10 * Nat.ofDigitChars 10 digits 0 + (c.toNat - '0'.toNat) := by
  rw [Nat.ofDigitChars_append, Nat.ofDigitChars_cons, Nat.ofDigitChars_nil]

theorem isDigit_of_mem_toDigits {n : Nat} {c : Char} (h : c ∈ Nat.toDigits 10 n) :
    c.isDigit = true :=
  Nat.isDigit_of_mem_toDigits (by norm_num) (by norm_num) h

theorem isDigit_of_mem_padded {width n : Nat} {c : Char} (h : c ∈ padded width n) :
    c.isDigit = true := by
  rcases List.mem_append.mp h with h | h
  · rw [List.eq_of_mem_replicate h]
    rfl
  · exact isDigit_of_mem_toDigits h

theorem length_padded {width n : Nat} (hw : 0 < width) (h : n < 10 ^ width) :
    (padded width n).length = width := by
  have := (Nat.length_toDigits_le_iff (b := 10) (by norm_num) hw).mpr h
  simp only [padded, List.length_append, List.length_replicate]
  omega

theorem ofDigitChars_padded (width n : Nat) : Nat.ofDigitChars 10 (padded width n) 0 = n := by
  simp [padded, Nat.ofDigitChars_append]

theorem exists_eq_replicate_append (digits : List Char) :
    ∃ k, digits = List.replicate k '0' ++ digits.dropWhile (· == '0') := by
  refine ⟨(digits.takeWhile (· == '0')).length, ?_⟩
  have hz : digits.takeWhile (· == '0') = List.replicate (digits.takeWhile (· == '0')).length '0' :=
    List.eq_replicate_of_mem fun c hc => by simpa using List.mem_takeWhile_imp hc
  rw [← hz, List.takeWhile_append_dropWhile]

theorem exists_eq_trimmed_append (digits : List Char) :
    ∃ k, digits = trimmed digits ++ List.replicate k '0' := by
  obtain ⟨k, hk⟩ := exists_eq_replicate_append digits.reverse
  have h := congrArg List.reverse hk
  rw [List.reverse_reverse, List.reverse_append, List.reverse_replicate] at h
  exact ⟨k, h⟩

theorem isDigit_of_mem_trimmed {digits : List Char} (hd : ∀ c ∈ digits, c.isDigit = true)
    {c : Char} (h : c ∈ trimmed digits) : c.isDigit = true := by
  obtain ⟨k, hk⟩ := exists_eq_trimmed_append digits
  exact hd c (hk ▸ List.mem_append_left _ h)

/-- A decimal is written as digits, and after a point may come more of them. -/
theorem exists_plain_eq_append (d : Decimal) :
    ∃ n rest, d.plain = Nat.toDigits 10 n ++ rest ∧
      ∀ c ∈ rest, (c.isDigit || c == '.') = true := by
  simp only [plain]
  split
  · exact ⟨_, [], (List.append_nil _).symm, by simp⟩
  · split
    · exact ⟨_, [], (List.append_nil _).symm, by simp⟩
    · refine ⟨_, _, rfl, ?_⟩
      intro c hc
      rcases List.mem_cons.mp hc with rfl | hc
      · rfl
      · simp [isDigit_of_mem_trimmed (fun c => isDigit_of_mem_padded) hc]

theorem exists_plain_eq_cons (d : Decimal) :
    ∃ c cs, d.plain = c :: cs ∧ c.isDigit = true ∧ ∀ x ∈ cs, (x.isDigit || x == '.') = true := by
  obtain ⟨n, rest, he, hr⟩ := exists_plain_eq_append d
  obtain ⟨c, cs, hc⟩ := List.exists_cons_of_ne_nil (Nat.toDigits_ne_nil (n := n) (b := 10))
  have hd : ∀ x ∈ c :: cs, x.isDigit = true := by
    intro x hx
    exact isDigit_of_mem_toDigits (hc ▸ hx)
  rw [hc] at he
  refine ⟨c, cs ++ rest, he, hd c List.mem_cons_self, ?_⟩
  intro x hx
  rcases List.mem_append.mp hx with hx | hx
  · simp [hd x (List.mem_cons_of_mem c hx)]
  · exact hr x hx

theorem ofChars_whole {whole : List Char} (hw : ∀ c ∈ whole, c.isDigit = true) :
    ofChars whole = ⟨Nat.ofDigitChars 10 whole 0, 0⟩ := by
  have ht : whole.takeWhile Char.isDigit = whole := List.takeWhile_eq_self_iff.mpr hw
  have hd : whole.dropWhile Char.isDigit = [] := List.dropWhile_eq_nil_iff.mpr hw
  simp [ofChars, ht, hd]

theorem ofChars_point {whole fraction : List Char} (hw : ∀ c ∈ whole, c.isDigit = true) :
    ofChars (whole ++ '.' :: fraction) =
      ⟨Nat.ofDigitChars 10 (whole ++ fraction) 0, -fraction.length⟩ := by
  have ht : (whole ++ '.' :: fraction).takeWhile Char.isDigit = whole := by
    rw [List.takeWhile_append_of_pos hw]
    simp
  have hd : (whole ++ '.' :: fraction).dropWhile Char.isDigit = '.' :: fraction := by
    rw [List.dropWhile_append_of_pos hw]
    simp
  simp [ofChars, ht, hd]

/-- Whole part and fraction, put back together, are the decimal they were cut from. -/
theorem value_whole_fraction {d : Decimal} (h : d.exponent < 0) {fraction : List Char} {k : Nat}
    (hk : padded (-d.exponent).toNat (d.coefficient % Nat.pow 10 (-d.exponent).toNat) =
      fraction ++ List.replicate k '0') :
    value ⟨Nat.ofDigitChars 10
      (Nat.toDigits 10 (d.coefficient / Nat.pow 10 (-d.exponent).toNat) ++ fraction) 0,
        -fraction.length⟩ = d.value := by
  obtain ⟨c, e⟩ := d
  obtain ⟨p, rfl⟩ : ∃ p : Nat, e = -p := ⟨(-e).toNat, by simp only at h; omega⟩
  have hp : 0 < p := by simp only at h; omega
  simp only [neg_neg, Int.toNat_natCast] at hk ⊢
  have hlen : p = fraction.length + k := by
    have hl := length_padded hp (Nat.mod_lt c (Nat.pow_pos (n := p) (by norm_num : 0 < 10)))
    change (padded p (c % Nat.pow 10 p)).length = p at hl
    rw [hk, List.length_append, List.length_replicate] at hl
    exact hl.symm
  have hfrac : Nat.pow 10 k * Nat.ofDigitChars 10 fraction 0 = c % Nat.pow 10 p := by
    have hv := ofDigitChars_padded p (c % Nat.pow 10 p)
    rwa [hk, Nat.ofDigitChars_append, Nat.ofDigitChars_replicate_zero] at hv
  have hc : c = Nat.pow 10 p * (c / Nat.pow 10 p) +
      Nat.pow 10 k * Nat.ofDigitChars 10 fraction 0 := by
    rw [hfrac]
    exact (Nat.div_add_mod c _).symm
  rw [Nat.ofDigitChars_append, Nat.ofDigitChars_ten_toDigits, Nat.ofDigitChars_eq_ofDigitChars_zero]
  generalize c / Nat.pow 10 p = w at hc ⊢
  generalize Nat.ofDigitChars 10 fraction 0 = f at hc ⊢
  simp only [value, hc, hlen, Nat.pow_eq, zpow_neg, zpow_natCast]
  push_cast
  field_simp
  ring

/-- What is written in full reads as the same number. -/
theorem value_ofChars_plain (d : Decimal) : (ofChars d.plain).value = d.value := by
  have hw : ∀ n, ∀ c ∈ Nat.toDigits 10 n, c.isDigit = true := by
    intro n c hc
    exact isDigit_of_mem_toDigits hc
  unfold plain
  by_cases h : 0 ≤ d.exponent
  · rw [if_pos h, ofChars_whole (hw _), Nat.ofDigitChars_ten_toDigits]
    obtain ⟨n, hn⟩ := Int.eq_ofNat_of_zero_le h
    simp [value, hn]
  · simp only [if_neg h]
    obtain ⟨k, hk⟩ := exists_eq_trimmed_append
      (padded (-d.exponent).toNat (d.coefficient % Nat.pow 10 (-d.exponent).toNat))
    have hv := value_whole_fraction (by omega) hk
    split
    case isTrue he =>
      rw [List.isEmpty_iff.mp he] at hv
      rw [ofChars_whole (hw _)]
      simpa using hv
    case isFalse he =>
      rw [ofChars_point (hw _)]
      exact hv

theorem isPlain_whole {whole : List Char} (hne : whole ≠ []) (hw : ∀ c ∈ whole, c.isDigit = true) :
    isPlain whole = true := by
  obtain ⟨c, cs, rfl⟩ := List.exists_cons_of_ne_nil hne
  have hd : (c :: cs).dropWhile Char.isDigit = [] := List.dropWhile_eq_nil_iff.mpr hw
  simp [isPlain, hd, hw c List.mem_cons_self]

theorem isPlain_point {whole fraction : List Char} (hne : whole ≠ [])
    (hw : ∀ c ∈ whole, c.isDigit = true) (hf : ∀ c ∈ fraction, c.isDigit = true) :
    isPlain (whole ++ '.' :: fraction) = true := by
  obtain ⟨c, cs, rfl⟩ := List.exists_cons_of_ne_nil hne
  have hd : (c :: cs ++ '.' :: fraction).dropWhile Char.isDigit = '.' :: fraction := by
    rw [List.dropWhile_append_of_pos hw]
    simp
  simp only [isPlain, hd]
  simpa [hw c List.mem_cons_self] using hf

/-- What is written with a fixed number of places reads as the same number. -/
theorem ofChars?_fixed (places n : Nat) :
    ∃ d, ofChars? (fixed places n) = some d ∧ d.value = (n : Rat) / 10 ^ places := by
  have hw : ∀ m, ∀ c ∈ Nat.toDigits 10 m, c.isDigit = true := by
    intro m c hc
    exact isDigit_of_mem_toDigits hc
  rcases Nat.eq_zero_or_pos places with rfl | hp
  · refine ⟨ofChars (Nat.toDigits 10 n), ?_, ?_⟩
    · simp [ofChars?, fixed, isPlain_whole Nat.toDigits_ne_nil (hw n)]
    · rw [ofChars_whole (hw n), Nat.ofDigitChars_ten_toDigits]
      simp [value]
  · have hfixed : fixed places n = Nat.toDigits 10 (n / Nat.pow 10 places) ++
        '.' :: padded places (n % Nat.pow 10 places) := if_neg hp.ne'
    refine ⟨ofChars (fixed places n), ?_, ?_⟩
    · rw [hfixed, ofChars?, if_pos]
      exact isPlain_point Nat.toDigits_ne_nil (hw _) fun c => isDigit_of_mem_padded
    · have := @value_whole_fraction ⟨n, -places⟩ (by simpa using hp)
        (padded places (n % Nat.pow 10 places)) 0 (by simp)
      rw [hfixed, ofChars_point (hw _)]
      simpa [value, div_eq_mul_inv] using this

theorem exists_fixed_eq_cons (places n : Nat) : ∃ c cs, fixed places n = c :: cs ∧ c ≠ '-' := by
  obtain ⟨c, cs, hc⟩ := List.exists_cons_of_ne_nil
    (Nat.toDigits_ne_nil (n := n / Nat.pow 10 places) (b := 10))
  have hdigit : c.isDigit = true := isDigit_of_mem_toDigits (hc ▸ List.mem_cons_self)
  have hne : c ≠ '-' := by
    rintro rfl
    cases hdigit
  simp only [fixed, hc]
  split
  · exact ⟨c, cs, rfl, hne⟩
  · exact ⟨c, _, rfl, hne⟩

end DeskCalculator.Decimal
