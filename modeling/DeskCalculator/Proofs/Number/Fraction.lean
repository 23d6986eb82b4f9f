import DeskCalculator.Proofs.Number.Decimals

/-! # How many decimals a text shows

`plain` writes no zero at the end of a fraction. So a number with `places` decimals is written with no
more than that, whatever coefficient and exponent it is given by.
-/
namespace DeskCalculator.Decimal

def fraction (cs : List Char) : List Char := (cs.dropWhile (· != '.')).drop 1

def AtMostPlaces (places : Nat) (cs : List Char) : Prop :=
  (fraction cs).length ≤ places ∧ (places = 0 → '.' ∉ cs)

instance (places : Nat) (cs : List Char) : Decidable (AtMostPlaces places cs) :=
  inferInstanceAs (Decidable (_ ∧ _))

variable {places : Nat} {whole cs : List Char}

theorem point_not_mem_of_isDigit (hw : ∀ c ∈ whole, c.isDigit = true) : '.' ∉ whole := by
  intro h
  cases hw _ h

theorem fraction_append (h : '.' ∉ whole) (cs : List Char) : fraction (whole ++ cs) = fraction cs := by
  have hne : ∀ c ∈ whole, (c != '.') = true := by
    intro c hc
    rw [bne_iff_ne]
    rintro rfl
    exact h hc
  rw [fraction, List.dropWhile_append_of_pos hne, fraction]

theorem atMostPlaces_of_not_mem (h : '.' ∉ cs) : AtMostPlaces places cs := by
  refine ⟨?_, fun _ => h⟩
  rw [← List.append_nil cs, fraction_append h]
  exact Nat.zero_le _

theorem AtMostPlaces.mono {finer : Nat} (h : AtMostPlaces places cs) (hle : places ≤ finer) :
    AtMostPlaces finer cs :=
  ⟨h.1.trans hle, fun h0 => h.2 (by omega)⟩

theorem AtMostPlaces.minus (h : AtMostPlaces places cs) : AtMostPlaces places ('-' :: cs) := by
  have hsign : '.' ∉ ['-'] := by decide
  refine ⟨?_, ?_⟩
  · have := fraction_append hsign cs
    rw [List.singleton_append] at this
    exact this ▸ h.1
  · intro h0
    simpa using h.2 h0

theorem getLast?_trimmed_ne (digits : List Char) : (trimmed digits).getLast? ≠ some '0' := by
  intro h
  rw [trimmed, List.getLast?_reverse] at h
  have := List.head?_dropWhile_not (· == '0') digits.reverse
  rw [h] at this
  cases this

/-- A number that ends in no zero is no multiple of ten. -/
theorem not_ten_dvd_of_getLast? {digits : List Char} (hd : ∀ c ∈ digits, c.isDigit = true)
    (hne : digits ≠ []) (h : digits.getLast? ≠ some '0') : ¬10 ∣ Nat.ofDigitChars 10 digits 0 := by
  obtain ⟨front, c, rfl⟩ := (List.eq_nil_or_concat digits).resolve_left hne
  rw [List.concat_eq_append] at hd h ⊢
  have hdigit := Char.isDigit_iff_toNat.mp (hd c (by simp))
  have hzero : c.toNat ≠ '0'.toNat := by
    intro heq
    exact h (by rw [List.getLast?_concat, Char.toNat_inj.mp heq])
  rw [ofDigitChars_concat]
  change 48 ≤ c.toNat ∧ c.toNat ≤ 57 at hdigit
  change c.toNat ≠ 48 at hzero
  change ¬10 ∣ 10 * _ + (c.toNat - 48)
  omega

/-- A coefficient over a higher power of ten than the number needs is a multiple of ten. -/
theorem ten_dvd_of_value {c length : Nat} {n : Int} (h : value ⟨c, -length⟩ * 10 ^ places = n)
    (hlt : places < length) : 10 ∣ c := by
  obtain ⟨k, rfl⟩ : ∃ k, length = places + k + 1 := ⟨length - places - 1, by omega⟩
  have hc : (c : Rat) = n * 10 ^ (k + 1) := by
    rw [← h, value, zpow_neg, zpow_natCast, add_assoc, pow_add]
    field_simp
  have hcast : (c : Int) = n * 10 ^ (k + 1) := by exact_mod_cast hc
  have hdvd : (10 : Int) ∣ c := hcast ▸ Dvd.intro_left (n * 10 ^ k) (by rw [mul_assoc, ← pow_succ])
  exact_mod_cast hdvd

theorem atMostPlaces_point {digits : List Char} (hw : '.' ∉ whole) (hne : digits ≠ [])
    (hlength : digits.length ≤ places) : AtMostPlaces places (whole ++ '.' :: digits) := by
  have hfraction : fraction ('.' :: digits) = digits := by simp [fraction]
  refine ⟨?_, ?_⟩
  · rwa [fraction_append hw, hfraction]
  · rintro rfl
    exact absurd (List.length_eq_zero_iff.mp (Nat.le_zero.mp hlength)) hne

/-- A multiple of `10 ^ -places` is written with at most `places` decimals. -/
theorem atMostPlaces_plain {d : Decimal} {n : Int} (h : d.value * 10 ^ places = n) :
    AtMostPlaces places d.plain := by
  have hwhole : ∀ m, ∀ c ∈ Nat.toDigits 10 m, c.isDigit = true := by
    intro m c hc
    exact isDigit_of_mem_toDigits hc
  have hnopoint : ∀ m, '.' ∉ Nat.toDigits 10 m := fun m => point_not_mem_of_isDigit (hwhole m)
  unfold plain
  by_cases he : 0 ≤ d.exponent
  · rw [if_pos he]
    exact atMostPlaces_of_not_mem (hnopoint _)
  · simp only [if_neg he]
    generalize hdigits : padded (-d.exponent).toNat
      (d.coefficient % Nat.pow 10 (-d.exponent).toNat) = digits
    obtain ⟨k, hk⟩ := exists_eq_trimmed_append digits
    have hpadded : ∀ c ∈ digits, c.isDigit = true := by
      intro c hc
      exact isDigit_of_mem_padded (hdigits ▸ hc)
    split
    case isTrue => exact atMostPlaces_of_not_mem (hnopoint _)
    case isFalse hne =>
      have hne : trimmed digits ≠ [] := by simpa using hne
      apply atMostPlaces_point (hnopoint _) hne
      by_contra hlt
      rw [← value_whole_fraction (not_le.mp he) (hdigits.trans hk)] at h
      refine not_ten_dvd_of_getLast? ?_ (by simp [hne]) ?_ (ten_dvd_of_value h (not_le.mp hlt))
      · exact List.forall_mem_append.mpr ⟨hwhole _, fun _ => isDigit_of_mem_trimmed hpadded⟩
      · rw [List.getLast?_append_of_ne_nil _ hne]
        exact getLast?_trimmed_ne digits

end DeskCalculator.Decimal
