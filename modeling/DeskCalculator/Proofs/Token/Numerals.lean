import DeskCalculator.Proofs.Number.ShortestText
import DeskCalculator.Token.Scan

/-! # Numerals

A lexeme of digits and points, with or without a minus in front, is read as a number exactly when it
is the text of that number, which is then finite and not the negative zero.
-/
namespace DeskCalculator.Token
open Binary64

theorem isNumeral_of_isDigit {c : Char} (h : c.isDigit = true) : isNumeral c = true := by
  simp [isNumeral, h]

/-- To hold of every character of a numeral is to hold of those below `':'`. -/
theorem of_isNumeral {P : Char → Prop}
    (h : ∀ n < 58, isNumeral (Char.ofNat n) = true → P (Char.ofNat n)) {c : Char}
    (hc : isNumeral c = true) : P c := by
  have hlt : c.toNat < 58 := by
    simp only [isNumeral, Bool.or_eq_true, beq_iff_eq] at hc
    rcases hc with hc | rfl
    · exact Nat.lt_succ_of_le (Char.isDigit_iff_toNat.mp hc).2
    · decide
  have hP := h c.toNat hlt
  rw [Char.ofNat_toNat] at hP
  exact hP hc

theorem numeralValue_minus (cs : List Char) :
    numeralValue ('-' :: cs) = nearest (-(Decimal.ofChars cs).value) := rfl

theorem numeralValue_of_ne_minus {c : Char} (h : c ≠ '-') (cs : List Char) :
    numeralValue (c :: cs) = nearest (Decimal.ofChars (c :: cs)).value := by
  unfold numeralValue
  split
  case h_1 heq => exact absurd (List.cons.inj heq).1 h
  case h_2 => rfl

/-- The text of a literal reads as the literal. -/
theorem numeralValue_chars {v : Float} (h : IsLiteral v) : numeralValue (Binary64.chars v) = v := by
  have hn := nearestRank_shortest (of_decide_eq_true h.1)
  have hv := (shortest (rank v)).value_ofChars_plain
  obtain ⟨c, cs, hp, hc, -⟩ := (shortest (rank v)).exists_plain_eq_cons
  have hr := ofRank_rank v
  rw [chars_of_isFinite h.1]
  cases hs : isNegative v with
  | true =>
    have hpos := pos_of_nearestRank_ne_zero (hn ▸ (h.rank_pos hs).ne')
    rw [if_pos rfl, numeralValue_minus, hv, nearest_neg_of_pos hpos, hn, ← hs, hr]
  | false =>
    have hd : c ≠ '-' := by
      rintro rfl
      simp at hc
    have hpos := (shortest (rank v)).value_nonneg
    rw [if_neg (by simp), hp, numeralValue_of_ne_minus hd, ← hp, hv, nearest_of_nonneg hpos, hn,
      ← hs, hr]

/-- The text of a literal is that of no other. -/
theorem eq_of_text_eq {v w : Float} (hv : IsLiteral v) (hw : IsLiteral w)
    (h : Binary64.text v = Binary64.text w) : v = w := by
  have hchars : Binary64.chars v = Binary64.chars w := String.ofList_injective h
  rw [← numeralValue_chars hv, hchars, numeralValue_chars hw]

theorem numeral_eq_chars {v : Float} (h : IsLiteral v) : numeral v = Binary64.chars v := by
  unfold numeral
  by_cases hz : isZero v = true
  · rw [if_pos hz]
    have hn : isNegative v = false := by
      simpa [hz] using h.2
    have h0 : rank v = 0 := eq_of_beq hz
    rw [chars_of_isFinite h.1, hn, h0]
    decide +kernel
  · rw [if_neg hz]

theorem readNumber_chars {v : Float} (h : IsLiteral v) : readNumber (Binary64.chars v) = some v := by
  simp only [readNumber, numeralValue_chars h, numeral_eq_chars h, if_true]

/-- The text of a literal begins with a minus or a digit, according to its sign. -/
theorem exists_chars_eq_cons {v : Float} (h : IsLiteral v) :
    ∃ c cs, Binary64.chars v = c :: cs ∧ (∀ x ∈ cs, isNumeral x = true) ∧
      (isNegative v = true → c = '-') ∧ (isNegative v = false → c.isDigit = true) := by
  obtain ⟨c, cs, hp, hc, hcs⟩ := (shortest (rank v)).exists_plain_eq_cons
  rw [chars_of_isFinite h.1, hp]
  cases isNegative v with
  | true =>
    refine ⟨'-', c :: cs, rfl, ?_, fun _ => rfl, nofun⟩
    intro x hx
    rcases List.mem_cons.mp hx with rfl | hx
    · exact isNumeral_of_isDigit hc
    · exact hcs x hx
  | false => exact ⟨c, cs, rfl, hcs, nofun, fun _ => hc⟩

theorem rank_numeralValue_le (cs : List Char) : rank (numeralValue cs) ≤ infinityRank := by
  unfold numeralValue
  split <;> exact rank_nearest_le _

/-- What has the text of an infinity is no lexeme of digits and points. -/
theorem isFinite_of_chars_eq {v : Float} (hr : rank v ≤ infinityRank) {c : Char} {cs : List Char}
    (hcs : ∀ x ∈ cs, isNumeral x = true) (hc : isNumeral c = true ∨ c = '-')
    (h : Binary64.chars v = c :: cs) : isFinite v = true := by
  by_contra hf
  have he : rank v = infinityRank := by
    have hle : ¬ rank v < infinityRank := by
      intro hlt
      exact hf (decide_eq_true hlt)
    omega
  have hn : ¬ infinityRank < rank v := by omega
  simp only [Binary64.chars, if_neg hn, if_pos he] at h
  cases hs : isNegative v with
  | true =>
    rw [hs, if_pos rfl] at h
    obtain ⟨-, rfl⟩ := List.cons.inj h
    exact absurd (hcs 'i' (by simp)) (by decide)
  | false =>
    rw [hs, if_neg (by simp)] at h
    obtain ⟨rfl, -⟩ := List.cons.inj h
    exact absurd hc (by decide)

/-- A lexeme that counts as a number is the text of a literal. -/
theorem isLiteral_of_readNumber {c : Char} {cs : List Char} {v : Float}
    (hcs : ∀ x ∈ cs, isNumeral x = true) (hc : isNumeral c = true ∨ c = '-')
    (h : readNumber (c :: cs) = some v) : IsLiteral v ∧ Binary64.chars v = c :: cs := by
  unfold readNumber at h
  by_cases hn : numeral (numeralValue (c :: cs)) = c :: cs
  · rw [if_pos hn] at h
    obtain rfl := Option.some.inj h
    by_cases hz : isZero (numeralValue (c :: cs)) = true
    · rw [numeral, if_pos hz] at hn
      have hl : IsLiteral (numeralValue (c :: cs)) := by
        rw [← hn]
        decide +kernel
      refine ⟨hl, ?_⟩
      rw [← numeral_eq_chars hl, numeral, if_pos hz, hn]
    · rw [numeral, if_neg hz] at hn
      have hf := isFinite_of_chars_eq (rank_numeralValue_le _) hcs hc hn
      exact ⟨⟨hf, fun hneg => hz hneg.1⟩, hn⟩
  · rw [if_neg hn] at h
    cases h

end DeskCalculator.Token
