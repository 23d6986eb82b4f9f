import DeskCalculator.Proofs.Token.Reading

/-! # Texts of whole symbols

A text that is put together from digits, points and whole symbols is in normal form, and wherever the
scanner stands in it a symbol is whole. So reading it can fail on a numeral, but never on a symbol.
-/
namespace DeskCalculator.Token
open Binary64

inductive Spelled : List Char → Prop
  | nil : Spelled []
  | numeral {c : Char} {cs : List Char} (hc : isNumeral c = true) (h : Spelled cs) : Spelled (c :: cs)
  | symbol {t : Token} {cs : List Char} (ht : t.isNumber = false) (h : Spelled cs) :
      Spelled (t.chars ++ cs)

variable {cs ds : List Char}

theorem Spelled.append (hc : Spelled cs) (hd : Spelled ds) : Spelled (cs ++ ds) := by
  induction hc with
  | nil => exact hd
  | numeral hc _ ih => exact .numeral hc ih
  | symbol ht _ ih =>
    rw [List.append_assoc]
    exact .symbol ht ih

theorem spelled_numerals (h : ∀ c ∈ cs, isNumeral c = true) : Spelled cs := by
  induction cs with
  | nil => exact .nil
  | cons c cs ih =>
    obtain ⟨hc, hcs⟩ := List.forall_mem_cons.mp h
    exact .numeral hc (ih hcs)

theorem spelled_symbol {t : Token} (ht : t.isNumber = false) : Spelled t.chars := by
  have := Spelled.symbol ht .nil
  rwa [List.append_nil] at this

/-- The sign of a literal is a symbol too. -/
theorem spelled_chars {v : Float} (h : IsLiteral v) : Spelled (Binary64.chars v) := by
  obtain ⟨c, cs, hc, hcs, hneg, hpos⟩ := exists_chars_eq_cons h
  rw [hc]
  cases hs : isNegative v with
  | true =>
    rw [hneg hs]
    exact .symbol (t := .operator .minus) rfl (spelled_numerals hcs)
  | false => exact .numeral (isNumeral_of_isDigit (hpos hs)) (spelled_numerals hcs)

theorem spelled_flatMap_chars {ts : List Token} (h : ∀ t ∈ ts, t.IsWritable) :
    Spelled (ts.flatMap chars) := by
  induction ts with
  | nil => exact .nil
  | cons t ts ih =>
    obtain ⟨ht, hts⟩ := List.forall_mem_cons.mp h
    refine Spelled.append ?_ (ih hts)
    cases t with
    | number v => exact spelled_chars ht
    | _ => exact spelled_symbol rfl

/-- What begins with neither digit nor point begins with a whole symbol. -/
theorem Spelled.exists_readSymbol {c : Char} (h : Spelled (c :: cs)) (hc : isNumeral c = false) :
    ∃ t rest, readSymbol [] (c :: cs) = .ok (t, rest) ∧ Spelled rest := by
  generalize hx : c :: cs = xs at h
  cases h with
  | nil => cases hx
  | numeral hn _ =>
    obtain ⟨rfl, -⟩ := List.cons.inj hx
    rw [hc] at hn
    cases hn
  | symbol ht h => exact ⟨_, _, readSymbol_chars ht _, h⟩

/-- Digits, points and signs are spelled by one character each. -/
theorem Spelled.tail {c : Char} (h : Spelled (c :: cs)) (hc : isNumeral c = true ∨ c = '-') :
    Spelled cs := by
  generalize hx : c :: cs = xs at h
  cases h with
  | nil => cases hx
  | numeral _ h =>
    obtain ⟨-, rfl⟩ := List.cons.inj hx
    exact h
  | symbol ht h =>
    -- Only a minus begins with a character that the scanner takes on its own.
    obtain ⟨d, ds, hd, hf, hminus⟩ := exists_symbol_chars ht
    rw [hd] at hx
    obtain ⟨rfl, hcs⟩ := List.cons.inj hx
    obtain rfl := hminus (hc.resolve_left (by simp [hf]))
    obtain ⟨-, rfl⟩ := List.cons.inj hd
    rwa [hcs]

theorem Spelled.dropWhile (h : Spelled cs) : Spelled (cs.dropWhile isNumeral) := by
  induction cs with
  | nil => exact .nil
  | cons c cs ih =>
    rw [List.dropWhile_cons]
    split
    case isTrue hc => exact ih (h.tail (.inl hc))
    case isFalse => exact h

def symbolChars : List Char := '(' :: ')' :: Operator.all.flatMap Operator.spelling

theorem mem_symbolChars {t : Token} (ht : t.isNumber = false) {c : Char} (hc : c ∈ t.chars) :
    c ∈ symbolChars := by
  cases t with
  | number v => cases ht
  | opening => exact List.mem_cons.mpr (.inl (List.mem_singleton.mp hc))
  | closing => exact List.mem_cons_of_mem _ (List.mem_cons.mpr (.inl (List.mem_singleton.mp hc)))
  | operator o =>
    refine List.mem_cons_of_mem _ (List.mem_cons_of_mem _ ?_)
    exact List.mem_flatMap.mpr ⟨o, Operator.mem_all o, hc⟩

theorem Spelled.isNumeral_or_mem (h : Spelled cs) {c : Char} (hc : c ∈ cs) :
    isNumeral c = true ∨ c ∈ symbolChars := by
  induction h with
  | nil => cases hc
  | numeral hd _ ih =>
    rcases List.mem_cons.mp hc with rfl | hc
    · exact .inl hd
    · exact ih hc
  | symbol ht _ ih =>
    rcases List.mem_append.mp hc with hc | hc
    · exact .inr (mem_symbolChars ht hc)
    · exact ih hc

theorem Spelled.blank_notMem (h : Spelled cs) : ' ' ∉ cs :=
  fun hc => absurd (h.isNumeral_or_mem hc) (by decide)

/-- Whole symbols are known symbols. -/
theorem scan_ne_unknownSymbol {afterOperand : Bool} (h : Spelled cs) (lexeme : String) :
    scan afterOperand cs ≠ .error (.unknownSymbol lexeme) := by
  have hsymbol : ∀ {c : Char} {sign : Bool}, ¬ (isNumeral c || sign) = true →
      isNumeral c = false := by
    intro c sign hc
    simp only [Bool.or_eq_true, not_or, Bool.not_eq_true] at hc
    exact hc.1
  fun_induction scan with
  | case1 =>
    intro h
    cases h
  | case2 =>
    intro h
    cases h
  | case3 after c cs hc lexeme v hv ih =>
    simp only [Bool.or_eq_true, Bool.and_eq_true, beq_iff_eq] at hc
    have hrest := ih (h.tail (hc.imp_right And.left)).dropWhile
    rwa [ne_eq, map_eq_error_iff]
  | case4 after c cs hc lexeme hs =>
    obtain ⟨t, rest, ht, -⟩ := h.exists_readSymbol (hsymbol hc)
    rw [ht] at hs
    cases hs
  | case5 after c cs hc t rest hs ih =>
    obtain ⟨u, rest', hu, hrest⟩ := h.exists_readSymbol (hsymbol hc)
    rw [hu] at hs
    cases hs
    have hrest := ih hrest
    rwa [ne_eq, map_eq_error_iff]

theorem normalChars_spelled (h : Spelled cs) : Text.normalChars cs = cs := by
  apply Text.normalChars_of_isNormal
  intro c hc
  rcases h.isNumeral_or_mem hc with hc | hc
  · exact isNormal_of_isNumeral hc
  · have hall : (symbolChars.all fun c => decide (Text.IsNormal c)) = true := by decide +kernel
    exact of_decide_eq_true (List.all_eq_true.mp hall c hc)

theorem normalize_spelled {s : String} (h : Spelled s.toList) : Text.normalize s = s := by
  rw [Text.normalize, normalChars_spelled h, String.ofList_toList]

end DeskCalculator.Token
