import DeskCalculator.Proofs.Number.Distance
import DeskCalculator.Proofs.Token.Faults

/-! # Numerals beyond the doubles

The text of a finite double never exceeds the greatest of them, so a numeral whose value does is not the
text of any number. Whatever has been read before it, the scanner stops there, with the numeral as the
reason.
-/
namespace DeskCalculator

namespace Binary64

def greatest : Rat := (2 ^ 53 - 1) * 2 ^ 971

theorem magnitude_eq_greatest : magnitude (infinityRank - 1) = greatest := by decide +kernel

theorem nearestRank_lt_of_le_greatest {x : Rat} (h : x ≤ greatest) : nearestRank x < infinityRank := by
  have hle := nearestRank_mono h
  rw [← magnitude_eq_greatest, nearestRank_magnitude (by decide)] at hle
  exact Nat.lt_of_le_of_lt hle (by decide)

theorem value_shortest_le {r : Nat} (h : r < infinityRank) : (shortest r).value ≤ greatest := by
  rw [← magnitude_eq_greatest]
  by_cases hlast : r = infinityRank - 1
  · subst hlast
    decide +kernel
  · by_contra hgt
    have hle := nearestRank_mono (not_le.mp hgt).le
    rw [nearestRank_magnitude (by decide), nearestRank_shortest h] at hle
    omega

/-- Behind its sign the text of a double is its shortest decimal. -/
theorem eq_plain_of_chars {v : Float} (h : isFinite v = true) {cs : List Char}
    (hcs : ∀ c ∈ cs, Token.isNumeral c = true) (hchars : chars v = cs ∨ chars v = '-' :: cs) :
    cs = (shortest (rank v)).plain := by
  have hfirst : ∀ ds : List Char, (shortest (rank v)).plain ≠ '-' :: ds := by
    intro ds hds
    obtain ⟨d, es, hplain, hd, -⟩ := (shortest (rank v)).exists_plain_eq_cons
    obtain ⟨rfl, -⟩ := List.cons.inj (hplain.symm.trans hds)
    cases hd
  rw [chars_of_isFinite h] at hchars
  cases hs : isNegative v with
  | true =>
    rw [hs, if_pos rfl] at hchars
    rcases hchars with rfl | hchars
    · exact absurd (hcs '-' List.mem_cons_self) (by decide)
    · exact (List.cons.inj hchars).2.symm
  | false =>
    rw [hs, if_neg Bool.false_ne_true] at hchars
    rcases hchars with hchars | hchars
    · exact hchars.symm
    · exact absurd hchars (hfirst cs)

end Binary64

namespace Token
open Binary64

def Overflows (lexeme : List Char) : Prop :=
  ∃ cs, (lexeme = cs ∨ lexeme = '-' :: cs) ∧ (∀ c ∈ cs, isNumeral c = true) ∧
    greatest < (Decimal.ofChars cs).value

theorem Overflows.exists_eq_cons {lexeme : List Char} (h : Overflows lexeme) :
    ∃ c cs, lexeme = c :: cs ∧ (isNumeral c = true ∨ c = '-') ∧ ∀ x ∈ cs, isNumeral x = true := by
  obtain ⟨cs, rfl | rfl, hcs, hvalue⟩ := h
  · cases lexeme with
    | nil => exact absurd hvalue (by decide +kernel)
    | cons c cs =>
      obtain ⟨hc, hcs⟩ := List.forall_mem_cons.mp hcs
      exact ⟨c, cs, rfl, .inl hc, hcs⟩
  · exact ⟨'-', cs, rfl, .inr rfl, hcs⟩

theorem readNumber_of_overflows {lexeme : List Char} (h : Overflows lexeme) :
    readNumber lexeme = none := by
  obtain ⟨c, ds, hlexeme, hc, hds⟩ := h.exists_eq_cons
  obtain ⟨cs, hsign, hcs, hvalue⟩ := h
  rw [Option.eq_none_iff_forall_ne_some]
  intro v hv
  rw [hlexeme] at hv
  obtain ⟨hl, hchars⟩ := isLiteral_of_readNumber hds hc hv
  rw [← hlexeme] at hchars
  have hplain := eq_plain_of_chars hl.1 hcs (hchars ▸ hsign)
  have hle := value_shortest_le (of_decide_eq_true hl.1)
  rw [hplain, Decimal.value_ofChars_plain] at hvalue
  exact absurd hle hvalue.not_ge

/-- Whether a lexeme that stands between tokens and further characters is read as one numeral: it prolongs
no number and is prolonged by no digit, and its minus has no left operand. -/
structure IsolatedBy (ts : List Token) (rest lexeme : List Char) : Prop where
  number : ts.getLast?.any isNumber = false
  sign : lexeme.head? = some '-' → ts.getLast?.any endsOperand = false
  rest : rest.takeWhile isNumeral = []

theorem isBadNumeral_of_overflows {lexeme rest : List Char} {ts : List Token} (h : Overflows lexeme)
    (hi : IsolatedBy ts rest lexeme) : IsBadNumeral ts.getLast? rest lexeme where
  eq_cons := h.exists_eq_cons
  not_isNumeral_rest := takeWhile_isNumeral_eq_nil_iff.mp hi.rest
  ne_chars := by
    rintro v hl rfl
    have hread := readNumber_of_overflows h
    rw [readNumber_chars hl] at hread
    cases hread
  after_minus := hi.sign
  after_numeral := fun _ => hi.number

/-- The first numeral that overflows is the error. -/
theorem tokenize_of_overflows {p lexeme rest : List Char} {ts : List Token}
    (hp : tokenize (String.ofList p) = .ok ts) (h : Overflows lexeme)
    (hi : IsolatedBy ts rest lexeme) :
    tokenize (String.ofList (p ++ lexeme ++ rest)) =
      .error (.invalidNumber (String.ofList lexeme)) :=
  tokenize_of_failsAt ⟨rest, ts, rfl, hp, .numeral (isBadNumeral_of_overflows h hi)⟩

end Token
end DeskCalculator
