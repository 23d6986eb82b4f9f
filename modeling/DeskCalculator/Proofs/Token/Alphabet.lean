import DeskCalculator.Proofs.Expression.Stages
import DeskCalculator.Proofs.Token.Faults
import DeskCalculator.Proofs.Token.Spelling

/-! # The characters of an expression

Only blanks and the characters of the alphabet can stand in a text that is read as tokens. Any other
character, however much it looks like one of these, makes reading fail wherever it stands: of the
characters beyond ASCII that have ASCII in their lower case one becomes a `k`, which is in no symbol, and
the other leaves a dot behind.
-/
namespace DeskCalculator

def alphabet : List Char :=
  ['0', '1', '2', '3', '4', '5', '6', '7', '8', '9', '.', '+', '-', '*', '/', '^', '(', ')',
    's', 'i', 'n', 'c', 'o', 'l', 'g', 'S', 'I', 'N', 'C', 'O', 'L', 'G']

theorem toNat_lt_of_mem_alphabet {c : Char} (h : c ∈ alphabet) : c.toNat < 128 := by
  have hall : (alphabet.all fun c => decide (c.toNat < 128)) = true := by decide
  exact of_decide_eq_true (List.all_eq_true.mp hall c h)

namespace Token

def isTextual (c : Char) : Bool := isNumeral c || symbolChars.contains c

theorem isTextual_of_tokenize {s : String} {ts : List Token} (h : tokenize s = .ok ts) {c : Char}
    (hc : c ∈ s.toList) : isTextual c = true := by
  obtain ⟨rfl, hl⟩ := tokenize_eq_ok_iff.mp h
  have hchars : (String.join (ts.map text)).toList = ts.flatMap chars := by
    simp [List.flatMap_map, text]
  rw [hchars] at hc
  have hspelled := spelled_flatMap_chars hl.isWritable
  simpa [isTextual] using hspelled.isNumeral_or_mem hc

theorem mem_alphabet_of_isTextual {c : Char} (h : isTextual c = true) : c ∈ alphabet := by
  have hall : (symbolChars.all alphabet.contains) = true := by decide
  simp only [isTextual, Bool.or_eq_true, List.contains_iff_mem] at h
  rcases h with h | h
  · exact of_isNumeral (P := fun c => c ∈ alphabet) (by decide) h
  · exact List.contains_iff_mem.mp (List.all_eq_true.mp hall c h)

/-- Only the alphabet has lower case that can stand in a token. -/
theorem mem_alphabet_of_lowercase {c : Char} (h : ∀ d ∈ Text.lowercase c, isTextual d = true) :
    c ∈ alphabet := by
  by_cases hdotted : c = '\u0130'
  · subst hdotted
    exact absurd (h '\u0307' (by decide +kernel)) (by decide)
  · have hlow : Text.shiftCase c ∈ Text.lowercase c := by
      rw [Text.lowercase_of_ne hdotted]
      exact List.mem_cons_self
    have htextual := h _ hlow
    have hmem := mem_alphabet_of_isTextual htextual
    rcases Text.of_mem_lowercase_ascii hlow (toNat_lt_of_mem_alphabet hmem) with
      hself | ⟨hfirst, hlast, hcapital⟩ | ⟨-, hk⟩ | hc
    · rwa [hself] at hmem
    · have hall : ∀ n < 26, Char.ofNat (n + 97) ∈ alphabet → Char.ofNat (n + 65) ∈ alphabet := by decide
      have hc := hall (c.toNat - 65) (by omega)
      rw [show c.toNat - 65 + 65 = c.toNat by omega, Char.ofNat_toNat,
        show c.toNat - 65 + 97 = (Text.shiftCase c).toNat by omega, Char.ofNat_toNat] at hc
      exact hc hmem
    · rw [hk] at htextual
      exact absurd htextual (by decide)
    · exact absurd hc hdotted

end Token

section expressions
variable {s : String} {c : Char}

theorem mem_alphabet_of_expressionTokens {ts : List Token} (h : expressionTokens s = .ok ts)
    (hc : c ∈ s.toList) (hblank : Text.isBlank c = false) : c ∈ alphabet := by
  apply Token.mem_alphabet_of_lowercase
  intro d hd
  apply Token.isTextual_of_tokenize h
  rw [Text.normalize, String.toList_ofList]
  exact List.mem_flatMap.mpr ⟨c, List.mem_filter.mpr ⟨hc, by simp [hblank]⟩, hd⟩

/-- A blank can stand in a text that is read, and so can each character of the alphabet. -/
theorem exists_expressionTokens (h : Text.isBlank c = true ∨ c ∈ alphabet) :
    ∃ t ts, c ∈ t.toList ∧ expressionTokens t = .ok ts := by
  rcases h with hblank | hc
  · refine ⟨String.ofList [c, '0'], [.number 0], by simp, ?_⟩
    have hnormal : Text.normalize (String.ofList [c, '0']) = "0" := by
      rw [Text.normalize, String.toList_ofList, Text.normalChars_cons_blank _ hblank]
      decide +kernel
    rw [expressionTokens, hnormal]
    decide +kernel
  · let t := "sin(1.5+2)-COS3*log4/SIN67^LOG(cos890)"
    have hall : (alphabet.all fun c => t.toList.contains c) = true := by decide +kernel
    have hread : (expressionTokens t).isOk = true := by decide +kernel
    refine ⟨t, ?_⟩
    cases hts : expressionTokens t with
    | error e =>
      rw [hts] at hread
      cases hread
    | ok ts => exact ⟨ts, List.contains_iff_mem.mp (List.all_eq_true.mp hall c hc), rfl⟩

end expressions

/-- Whatever is not blank in a text that is read as tokens, or has a value, is ASCII and in the alphabet. Any
other character makes evaluation fail on a numeral or on a symbol, whatever surrounds it. Blanks and the
alphabet are needed: each of these characters stands in some text that is read. -/
theorem characters_of_expressions (s : String) :
    (∀ ts, expressionTokens s = .ok ts →
        ∀ c ∈ s.toList, Text.isBlank c = false → c.toNat < 128 ∧ c ∈ alphabet) ∧
      (∀ v, evaluate s = .ok v →
        ∀ c ∈ s.toList, Text.isBlank c = false → c.toNat < 128 ∧ c ∈ alphabet) ∧
      (∀ c ∈ s.toList, Text.isBlank c = false → c ∉ alphabet →
        ∃ lexeme, evaluate s = .error (.invalidNumber lexeme) ∨
          evaluate s = .error (.unknownSymbol lexeme)) ∧
      ∀ c, Text.isBlank c = true ∨ c ∈ alphabet ↔
        ∃ t ts, c ∈ t.toList ∧ expressionTokens t = .ok ts := by
  have htokens : ∀ {t ts}, expressionTokens t = .ok ts →
      ∀ c ∈ t.toList, Text.isBlank c = false → c.toNat < 128 ∧ c ∈ alphabet := by
    intro t ts h c hc hblank
    have hmem := mem_alphabet_of_expressionTokens h hc hblank
    exact ⟨toNat_lt_of_mem_alphabet hmem, hmem⟩
  refine ⟨fun ts => htokens, ?_, ?_, ?_⟩
  · intro v hv
    cases h : expressionTokens s with
    | ok ts => exact htokens h
    | error e =>
      rw [evaluate_of_unread h] at hv
      cases hv
  · intro c hc hblank hother
    cases h : expressionTokens s with
    | ok ts => exact absurd (htokens h c hc hblank).2 hother
    | error e =>
      rw [evaluate_of_unread h]
      obtain ⟨lexeme, hlexeme⟩ := Token.exists_lexeme_of_tokenize h
      exact ⟨lexeme, hlexeme.imp (congrArg _) (congrArg _)⟩
  · intro c
    refine ⟨exists_expressionTokens, ?_⟩
    rintro ⟨t, ts, hc, h⟩
    cases hblank : Text.isBlank c with
    | true => exact .inl rfl
    | false => exact .inr (htokens h c hc hblank).2

/-- A wide blank is skipped, while a capital `I` with a dot is no `I`. -/
theorem characters_of_expressions_dotted_capital :
    evaluate "1+\u20032" = .ok 3 ∧
      (∀ c ∈ "1+\u20032".toList, Text.isBlank c = false → c.toNat < 128 ∧ c ∈ alphabet) ∧
      expressionTokens "LO G 8" = .ok [.operator .log, .number 8] ∧
      (∀ c ∈ "LO G 8".toList, Text.isBlank c = false → c.toNat < 128 ∧ c ∈ alphabet) ∧
      '\u0130' ∈ "S\u0130N(0)".toList ∧ Text.isBlank '\u0130' = false ∧ '\u0130' ∉ alphabet ∧
      ∃ lexeme, evaluate "S\u0130N(0)" = .error (.invalidNumber lexeme) ∨
        evaluate "S\u0130N(0)" = .error (.unknownSymbol lexeme) := by
  have hvalue : evaluate "1+\u20032" = .ok 3 := by decide +kernel
  have htokens : expressionTokens "LO G 8" = .ok [.operator .log, .number 8] := by decide +kernel
  have hmem : '\u0130' ∈ "S\u0130N(0)".toList := by decide +kernel
  have hblank : Text.isBlank '\u0130' = false := by decide +kernel
  have hother : '\u0130' ∉ alphabet := by decide
  obtain ⟨-, hevaluate, -, -⟩ := characters_of_expressions "1+\u20032"
  obtain ⟨hread, -, -, -⟩ := characters_of_expressions "LO G 8"
  obtain ⟨-, -, hstray, -⟩ := characters_of_expressions "S\u0130N(0)"
  exact ⟨hvalue, hevaluate _ hvalue, htokens, hread _ htokens, hmem, hblank, hother,
    hstray _ hmem hblank hother⟩

end DeskCalculator
