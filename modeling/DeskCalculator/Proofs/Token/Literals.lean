import DeskCalculator.Proofs.Number.FifteenDigits
import DeskCalculator.Proofs.Number.PlainText
import DeskCalculator.Proofs.Token.Overflow

/-! # Ordinary literals are read

A numeral in plain spelling with at most fifteen significant digits, neither too small nor too great, is the
text of the double nearest to it: the shortest decimal of this double is the number itself, and a number has
only one plain spelling. So the scanner reads the numeral as that double.
-/
namespace DeskCalculator.Token
open Binary64 Decimal

def exactValue : List Char → Rat
  | '-' :: cs => -(ofChars cs).value
  | cs => (ofChars cs).value

/-- A plain spelling, with a minus in front of it or not; `-0` is none. -/
inductive IsPlainNumeral : List Char → Prop
  | plain {cs whole fraction : List Char} (h : Spells cs whole fraction) : IsPlainNumeral cs
  | minus {cs whole fraction : List Char} (h : Spells cs whole fraction) (hne : cs ≠ ['0']) :
      IsPlainNumeral ('-' :: cs)

section plain
variable {cs whole fraction : List Char}

theorem exactValue_of_spells (h : Spells cs whole fraction) : exactValue cs = (ofChars cs).value := by
  unfold exactValue
  split
  case h_1 cs =>
    obtain ⟨c, ds, hwhole⟩ := List.exists_cons_of_ne_nil h.whole_ne_nil
    have hfirst := h.eq_append
    rw [hwhole] at hfirst
    have hminus := h.isDigit_whole c (hwhole ▸ List.mem_cons_self)
    obtain ⟨rfl, -⟩ := List.cons.inj hfirst
    cases hminus
  case h_2 => rfl

/-- A plain spelling in the range of fifteen digits is what is written for the nearest double. -/
theorem eq_plain_shortest (h : Spells cs whole fraction)
    (hrange : (ofChars cs).value = 0 ∨ (significant cs).length ≤ 15 ∧
      2 ^ (-1022 : Int) ≤ (ofChars cs).value ∧ (ofChars cs).value ≤ greatest) :
    nearestRank (ofChars cs).value < infinityRank ∧
      cs = (shortest (nearestRank (ofChars cs).value)).plain := by
  rcases hrange with hzero | ⟨hdigits, hlow, hhigh⟩
  · rw [hzero, nearestRank_zero]
    exact ⟨by decide, h.eq_plain (value_shortest_zero.trans hzero.symm)⟩
  · have hfinite := nearestRank_lt_of_le_greatest hhigh
    refine ⟨hfinite, h.eq_plain ?_⟩
    obtain ⟨n, k, hn, hvalue⟩ := h.exists_value_eq
    have hn : n ≤ 10 ^ 15 := hn.le.trans (Nat.pow_le_pow_right (by norm_num) hdigits)
    rw [hvalue] at hlow hfinite ⊢
    exact value_shortest_nearestRank hn hlow hfinite

theorem value_pos_of_ne (h : Spells cs whole fraction) (hne : cs ≠ ['0']) : 0 < (ofChars cs).value := by
  refine lt_of_le_of_ne (value_nonneg _) ?_
  intro hzero
  have hplain : (shortest 0).plain = ['0'] := by
    rw [shortest_zero]
    decide +kernel
  exact hne ((h.eq_plain (value_shortest_zero.trans hzero)).trans hplain)

end plain

/-- The text of a double by its sign and rank. -/
theorem chars_ofRank {negative : Bool} {r : Nat} (h : r < infinityRank) (hne : negative = true → r ≠ 0) :
    IsLiteral (ofRank negative r) ∧ Binary64.chars (ofRank negative r) =
      if negative then '-' :: (shortest r).plain else (shortest r).plain := by
  have hrank := rank_ofRank negative h.le
  have hsign := isNegative_ofRank negative h.le
  have hfinite : isFinite (ofRank negative r) = true := decide_eq_true (hrank.trans_lt h)
  refine ⟨⟨hfinite, ?_⟩, by rw [chars_of_isFinite hfinite, hrank, hsign]⟩
  rintro ⟨hzero, hnegative⟩
  rw [isZero, hrank, beq_iff_eq] at hzero
  exact hne (hsign.symm.trans hnegative) hzero

/-- The text of the double nearest to an ordinary numeral is the numeral. -/
theorem chars_nearest_exactValue {lexeme : List Char} (h : IsPlainNumeral lexeme)
    (hrange : exactValue lexeme = 0 ∨ (significant lexeme).length ≤ 15 ∧
      2 ^ (-1022 : Int) ≤ |exactValue lexeme| ∧ |exactValue lexeme| ≤ greatest) :
    IsLiteral (nearest (exactValue lexeme)) ∧
      Binary64.chars (nearest (exactValue lexeme)) = lexeme := by
  cases h with
  | plain h =>
    have hnonneg := value_nonneg (ofChars lexeme)
    rw [exactValue_of_spells h, abs_of_nonneg hnonneg] at hrange
    obtain ⟨hfinite, hplain⟩ := eq_plain_shortest h hrange
    obtain ⟨hl, hchars⟩ := @chars_ofRank false _ hfinite (by simp)
    rw [exactValue_of_spells h, nearest_of_nonneg hnonneg]
    exact ⟨hl, hchars.trans hplain.symm⟩
  | @minus cs _ _ h hne =>
    have hpos := value_pos_of_ne h hne
    rw [exactValue, abs_neg, abs_of_pos hpos, significant_minus] at hrange
    have hrange := hrange.resolve_left (neg_ne_zero.mpr hpos.ne')
    obtain ⟨hfinite, hplain⟩ := eq_plain_shortest h (.inr hrange)
    have hrank : nearestRank (ofChars cs).value ≠ 0 := by
      have := binade_le_nearestRank hrange.2.1
      simp only [binade] at this
      omega
    obtain ⟨hl, hchars⟩ := chars_ofRank hfinite fun _ => hrank
    rw [exactValue, nearest_neg_of_pos hpos]
    exact ⟨hl, hchars.trans (congrArg ('-' :: ·) hplain.symm)⟩

theorem tokenize_text {v : Float} (h : IsLiteral v) : tokenize (Binary64.text v) = .ok [.number v] := by
  rw [tokenize_eq_ok_iff]
  exact ⟨by simp [Token.text, Token.chars, Binary64.text], h, ⟨rfl, by simp⟩, trivial⟩

/-- An ordinary numeral is read as the double nearest to its exact value. -/
theorem tokenize_plain_numeral {lexeme : List Char} (h : IsPlainNumeral lexeme)
    (hrange : exactValue lexeme = 0 ∨ (significant lexeme).length ≤ 15 ∧
      2 ^ (-1022 : Int) ≤ |exactValue lexeme| ∧ |exactValue lexeme| ≤ greatest) :
    tokenize (String.ofList lexeme) = .ok [.number (nearest (exactValue lexeme))] ∧
      IsNearest (exactValue lexeme) (nearest (exactValue lexeme)) := by
  obtain ⟨hl, hchars⟩ := chars_nearest_exactValue h hrange
  have htokens := tokenize_text hl
  rw [Binary64.text, hchars] at htokens
  exact ⟨htokens, isNearest_nearest hl.1⟩

theorem tokenize_plain_numeral_of_fifteen_digits :
    tokenize "-0.000123456789012345" = .ok [.number (-0.000123456789012345)] := by
  have hspells : Spells "0.000123456789012345".toList ['0'] "000123456789012345".toList := {
    eq_append := by decide
    whole_ne_nil := by decide
    isDigit_whole := List.all_eq_true.mp (by decide)
    isDigit_fraction := List.all_eq_true.mp (by decide)
    leading := by decide
    trailing := by decide }
  have hlexeme : IsPlainNumeral ('-' :: "0.000123456789012345".toList) := .minus hspells (by decide)
  have hrange : (significant ('-' :: "0.000123456789012345".toList)).length ≤ 15 ∧
      2 ^ (-1022 : Int) ≤ |exactValue ('-' :: "0.000123456789012345".toList)| ∧
      |exactValue ('-' :: "0.000123456789012345".toList)| ≤ greatest := by decide +kernel
  have hvalue : nearest (exactValue ('-' :: "0.000123456789012345".toList)) =
      -0.000123456789012345 := by decide +kernel
  rw [← hvalue]
  exact (tokenize_plain_numeral hlexeme (.inr hrange)).1

end DeskCalculator.Token
