import DeskCalculator.Proofs.Text.Normal
import DeskCalculator.Proofs.Token.Numerals

/-! # Reading is the inverse of writing

A text is read as tokens exactly when it is their texts in a row and the tokens are legible: each
number is a literal, and each token may follow the one before it without running into it. The spaces
of `line` do not matter, so a text can be recovered from the line of its tokens.
-/
namespace DeskCalculator.Token
open Binary64

def IsWritable : Token → Prop
  | number v => IsLiteral v
  | _ => True

def MayFollow (previous : Option Token) : Token → Prop
  | number v => previous.any isNumber = false ∧ (isNegative v = true → previous ≠ some closing)
  | operator .minus => previous.any endsOperand = true
  | _ => True

/-- Every token can be written, and may follow the one before it. -/
def Legible (previous : Option Token) : List Token → Prop
  | [] => True
  | t :: ts => t.IsWritable ∧ MayFollow previous t ∧ Legible (some t) ts

instance (t : Token) : Decidable t.IsWritable :=
  match t with
  | number v => inferInstanceAs (Decidable (IsLiteral v))
  | operator _ | opening | closing => isTrue trivial

instance (previous : Option Token) (t : Token) : Decidable (MayFollow previous t) := by
  unfold MayFollow
  split <;> infer_instance

instance decidableLegible : (previous : Option Token) → (ts : List Token) →
    Decidable (Legible previous ts)
  | _, [] => isTrue trivial
  | previous, t :: ts =>
    have := decidableLegible (some t) ts
    inferInstanceAs (Decidable (t.IsWritable ∧ MayFollow previous t ∧ Legible (some t) ts))

theorem scan_number {afterOperand : Bool} {c : Char} {cs : List Char} {v : Float}
    (hc : (isNumeral c || (c == '-' && !afterOperand)) = true)
    (hv : readNumber (c :: cs.takeWhile isNumeral) = some v) :
    scan afterOperand (c :: cs) = (number v :: ·) <$> scan true (cs.dropWhile isNumeral) := by
  rw [scan, if_pos hc]
  simp only [hv]

theorem scan_symbol {afterOperand : Bool} {c : Char} {cs rest : List Char} {t : Token}
    (hc : ¬ (isNumeral c || (c == '-' && !afterOperand)) = true)
    (ht : readSymbol [] (c :: cs) = .ok (t, rest)) :
    scan afterOperand (c :: cs) = (t :: ·) <$> scan t.endsOperand rest := by
  rw [scan, if_neg hc]
  split
  case h_1 he => cases he.symm.trans ht
  case h_2 he =>
    obtain ⟨rfl, rfl⟩ := Prod.mk.inj (Except.ok.inj (he.symm.trans ht))
    rfl

theorem readSymbol_chars {t : Token} (h : t.isNumber = false) (rest : List Char) :
    readSymbol [] (t.chars ++ rest) = .ok (t, rest) := by
  cases t with
  | number v => cases h
  | operator o => cases o <;> rfl
  | opening => rfl
  | closing => rfl

theorem eq_chars_of_ofSymbol? {cs : List Char} {t : Token} (h : ofSymbol? cs = some t) :
    cs = t.chars ∧ t.isNumber = false := by
  unfold ofSymbol? at h
  by_cases hopening : cs = ['(']
  · rw [if_pos hopening] at h
    cases h
    exact ⟨hopening, rfl⟩
  · rw [if_neg hopening] at h
    by_cases hclosing : cs = [')']
    · rw [if_pos hclosing] at h
      cases h
      exact ⟨hclosing, rfl⟩
    · rw [if_neg hclosing] at h
      obtain ⟨o, ho, rfl⟩ := Option.map_eq_some_iff.mp h
      exact ⟨Operator.ofChars?_eq_some_iff.mp ho, rfl⟩

theorem eq_append_of_readSymbol {held cs rest : List Char} {t : Token}
    (h : readSymbol held cs = .ok (t, rest)) :
    held ++ cs = t.chars ++ rest ∧ t.isNumber = false := by
  induction cs generalizing held with
  | nil => cases h
  | cons c cs ih =>
    simp only [readSymbol] at h
    split at h
    · cases h
    · split at h
      case h_1 t' ht =>
        cases h
        obtain ⟨hc, hn⟩ := eq_chars_of_ofSymbol? ht
        exact ⟨by rw [← hc]; simp, hn⟩
      case h_2 =>
        split at h
        · simpa using ih h
        · cases h

/-- The text of a symbol begins with no digit and no point. -/
theorem exists_symbol_chars {t : Token} (h : t.isNumber = false) :
    ∃ c cs, t.chars = c :: cs ∧ isNumeral c = false ∧ (c = '-' → t = operator .minus) := by
  cases t with
  | number v => cases h
  | operator o => cases o <;> exact ⟨_, _, rfl, by decide, by decide⟩
  | opening => exact ⟨_, _, rfl, by decide, by decide⟩
  | closing => exact ⟨_, _, rfl, by decide, by decide⟩

/-- After a number the text goes on with neither a digit nor a point. -/
theorem takeWhile_flatMap_chars_append {v : Float} {ts : List Token}
    (h : Legible (some (number v)) ts) {rest : List Char}
    (hrest : ts = [] → rest.takeWhile isNumeral = []) :
    (ts.flatMap chars ++ rest).takeWhile isNumeral = [] := by
  cases ts with
  | nil => exact hrest rfl
  | cons t ts =>
    have hn : t.isNumber = false := by
      cases t with
      | number w => exact absurd h.2.1.1 (by simp [isNumber])
      | _ => rfl
    obtain ⟨c, cs, hc, hf, -⟩ := exists_symbol_chars hn
    simp [hc, hf]

theorem takeWhile_isNumeral_eq_nil_iff {cs : List Char} :
    cs.takeWhile isNumeral = [] ↔ ∀ c ∈ cs.head?, isNumeral c = false := by
  cases cs with
  | nil => simp
  | cons c cs => cases hc : isNumeral c <;> simp [hc]

theorem takeWhile_append_of_stop {cs rest : List Char} (hcs : ∀ x ∈ cs, isNumeral x = true)
    (hrest : rest.takeWhile isNumeral = []) :
    (cs ++ rest).takeWhile isNumeral = cs ∧ (cs ++ rest).dropWhile isNumeral = rest := by
  have hdrop : rest.dropWhile isNumeral = rest := by
    simpa [hrest] using rest.takeWhile_append_dropWhile (p := isNumeral)
  constructor
  · rw [List.takeWhile_append_of_pos hcs, hrest, List.append_nil]
  · rw [List.dropWhile_append_of_pos hcs, hdrop]

theorem scan_chars_append {v : Float} (h : IsLiteral v) {afterOperand : Bool}
    (hm : isNegative v = true → afterOperand = false) {rest : List Char}
    (hr : rest.takeWhile isNumeral = []) :
    scan afterOperand (Binary64.chars v ++ rest) = (number v :: ·) <$> scan true rest := by
  obtain ⟨c, cs, hc, hcs, hneg, hpos⟩ := exists_chars_eq_cons h
  obtain ⟨htake, hdrop⟩ := takeWhile_append_of_stop hcs hr
  have hstart : (isNumeral c || (c == '-' && !afterOperand)) = true := by
    cases hs : isNegative v with
    | true => simp [hneg hs, hm hs]
    | false => simp [isNumeral_of_isDigit (hpos hs)]
  have hv : readNumber (c :: (cs ++ rest).takeWhile isNumeral) = some v := by
    rw [htake, ← hc, readNumber_chars h]
  rw [hc, List.cons_append, scan_number hstart hv, hdrop]

theorem scan_symbol_append {t : Token} (hn : t.isNumber = false) {afterOperand : Bool}
    (hm : t = operator .minus → afterOperand = true) (rest : List Char) :
    scan afterOperand (t.chars ++ rest) = (t :: ·) <$> scan t.endsOperand rest := by
  obtain ⟨c, cs, hc, hf, hminus⟩ := exists_symbol_chars hn
  have hs := readSymbol_chars hn rest
  have hstart : ¬ (isNumeral c || (c == '-' && !afterOperand)) = true := by
    by_cases hd : c = '-'
    · simp [hf, hm (hminus hd)]
    · simp [hf, hd]
  rw [hc, List.cons_append] at hs ⊢
  exact scan_symbol hstart hs

/-- A negative number never follows an operand. -/
theorem MayFollow.of_isNegative {previous : Option Token} {v : Float}
    (h : MayFollow previous (number v)) (hneg : isNegative v = true) :
    previous.any endsOperand = false := by
  obtain ⟨hnumber, hclosing⟩ := h
  cases previous with
  | none => rfl
  | some t =>
    cases t with
    | number w => cases hnumber
    | operator o => rfl
    | opening => rfl
    | closing => exact absurd rfl (hclosing hneg)

theorem getLast?_cons_or (t : Token) (ts : List Token) (previous : Option Token) :
    (t :: ts).getLast?.or previous = ts.getLast?.or (some t) := by
  rw [List.getLast?_cons]
  cases ts.getLast? <;> rfl

/-- What is written legibly is read back in front of any text that does not prolong a number. -/
theorem scan_flatMap_chars_append {previous : Option Token} {ts : List Token}
    (h : Legible previous ts) (rest : List Char)
    (hrest : (ts.getLast?.or previous).any isNumber = true → rest.takeWhile isNumeral = []) :
    scan (previous.any endsOperand) (ts.flatMap chars ++ rest) =
      (ts ++ ·) <$> scan ((ts.getLast?.or previous).any endsOperand) rest := by
  induction ts generalizing previous with
  | nil =>
    rw [List.flatMap_nil, List.nil_append, List.getLast?_nil, Option.none_or]
    exact (id_map' _).symm
  | cons t ts ih =>
    obtain ⟨hw, hm, hl⟩ := h
    rw [getLast?_cons_or] at hrest ⊢
    have ih := ih hl hrest
    rw [Option.any_some] at ih
    rw [List.flatMap_cons, List.append_assoc]
    cases hn : t.isNumber with
    | false =>
      have hminus : t = operator .minus → previous.any endsOperand = true := by
        rintro rfl
        exact hm
      rw [scan_symbol_append hn hminus, ih]
      exact Functor.map_map ..
    | true =>
      cases t with
      | number v =>
        have hnone : ts = [] → rest.takeWhile isNumeral = [] := by
          rintro rfl
          exact hrest rfl
        rw [chars, scan_chars_append hw (MayFollow.of_isNegative hm)
          (takeWhile_flatMap_chars_append hl hnone)]
        change _ <$> scan (number v).endsOperand _ = _
        rw [ih]
        exact Functor.map_map ..
      | _ => cases hn

/-- What is written legibly is read back. -/
theorem scan_flatMap_chars {previous : Option Token} {ts : List Token} (h : Legible previous ts) :
    scan (previous.any endsOperand) (ts.flatMap chars) = .ok ts := by
  have hscan := scan_flatMap_chars_append h [] fun _ => rfl
  rw [List.append_nil, scan] at hscan
  rw [hscan]
  exact congrArg Except.ok (List.append_nil ts)

theorem takeWhile_dropWhile (p : Char → Bool) (cs : List Char) :
    (cs.dropWhile p).takeWhile p = [] := by
  induction cs with
  | nil => rfl
  | cons c cs ih =>
    cases hc : p c with
    | true => simpa [hc] using ih
    | false => simp [hc]

theorem any_endsOperand_of_isNumber {previous : Option Token}
    (h : previous.any isNumber = true) : previous.any endsOperand = true := by
  match previous, h with
  | some (number _), _ => rfl

/-- A numeral begins with a minus only where no operand stands, and with a digit not after another
number. -/
theorem mayFollow_number {previous : Option Token} {v : Float} {c : Char} {cs : List Char}
    (hl : IsLiteral v) (hchars : Binary64.chars v = c :: cs)
    (hc : (isNumeral c || (c == '-' && !previous.any endsOperand)) = true)
    (hn : previous.any isNumber = true → isNumeral c = false) : MayFollow previous (number v) := by
  have hsign : isNumeral c = false → previous.any endsOperand = false := by
    intro hf
    simp only [hf, Bool.false_or, Bool.and_eq_true, Bool.not_eq_true'] at hc
    exact hc.2
  constructor
  · by_contra hnumber
    rw [Bool.not_eq_false] at hnumber
    have hends := hsign (hn hnumber)
    rw [any_endsOperand_of_isNumber hnumber] at hends
    cases hends
  · rintro hneg rfl
    obtain ⟨c', cs', hc', -, hminus, -⟩ := exists_chars_eq_cons hl
    obtain rfl : c = '-' := by
      rw [hchars] at hc'
      exact (List.cons.inj hc').1.trans (hminus hneg)
    exact absurd (hsign (by decide)) (by decide)

/-- A symbol is read only where it may follow what was read before. -/
theorem mayFollow_symbol {previous : Option Token} {t : Token} {c : Char}
    (ht : t.isNumber = false) (hminus : t = operator .minus → c = '-')
    (hc : ¬ (isNumeral c || (c == '-' && !previous.any endsOperand)) = true) :
    MayFollow previous t := by
  cases t with
  | number v => cases ht
  | opening => trivial
  | closing => trivial
  | operator o =>
    cases o with
    | minus =>
      obtain rfl := hminus rfl
      rw [MayFollow]
      simp only [Bool.or_eq_true, Bool.and_eq_true, not_or, not_and, beq_self_eq_true] at hc
      simpa using hc.2 trivial
    | _ => trivial

/-- What is read is legible, and its texts are what it was read from. -/
theorem legible_of_scan {afterOperand : Bool} {cs : List Char} {ts : List Token}
    (h : scan afterOperand cs = .ok ts) {previous : Option Token}
    (hp : previous.any endsOperand = afterOperand)
    (hn : previous.any isNumber = true → cs.takeWhile isNumeral = []) :
    cs = ts.flatMap chars ∧ Legible previous ts := by
  fun_induction scan generalizing ts previous with
  | case1 =>
    cases h
    exact ⟨rfl, trivial⟩
  | case2 => cases h
  | case3 after c cs hc lexeme v hv =>
    rename_i ih
    obtain ⟨us, hus, rfl⟩ := map_eq_ok_iff.mp h
    have hstart : isNumeral c = true ∨ c = '-' := by
      simp only [Bool.or_eq_true, Bool.and_eq_true, beq_iff_eq] at hc
      exact hc.imp_right And.left
    have hnumerals : ∀ x ∈ cs.takeWhile isNumeral, isNumeral x = true := by
      intro x hx
      exact List.mem_takeWhile_imp hx
    obtain ⟨hl, hchars⟩ := isLiteral_of_readNumber hnumerals hstart hv
    obtain ⟨hrest, hlegible⟩ := @ih us hus (some (number v)) rfl
      fun _ => takeWhile_dropWhile isNumeral cs
    refine ⟨?_, hl, ?_, hlegible⟩
    · rw [List.flatMap_cons, chars, hchars, ← hrest, List.cons_append,
        List.takeWhile_append_dropWhile]
    · apply mayFollow_number hl hchars (hp ▸ hc)
      intro hnumber
      have hnone := hn hnumber
      by_contra hf
      rw [List.takeWhile_cons, if_pos (Bool.not_eq_false _ ▸ hf)] at hnone
      cases hnone
  | case4 => cases h
  | case5 after c cs hc t rest hs ih =>
    obtain ⟨us, hus, rfl⟩ := map_eq_ok_iff.mp h
    obtain ⟨hcs, hsymbol⟩ := eq_append_of_readSymbol hs
    obtain ⟨hrest, hlegible⟩ := @ih us hus (some t) rfl (by simp [hsymbol])
    refine ⟨?_, ?_, ?_, hlegible⟩
    · rw [List.flatMap_cons, ← hrest, ← hcs, List.nil_append]
    · cases t with
      | number v => cases hsymbol
      | _ => trivial
    · apply mayFollow_symbol hsymbol _ (hp ▸ hc)
      rintro rfl
      exact (List.cons.inj hcs).1

theorem tokenize_eq_ok_iff {s : String} {ts : List Token} :
    tokenize s = .ok ts ↔ s = String.join (ts.map text) ∧ Legible none ts := by
  have hjoin : (String.join (ts.map text)).toList = ts.flatMap chars := by
    simp [List.flatMap_map, text]
  constructor
  · intro h
    obtain ⟨hs, hl⟩ := @legible_of_scan false _ _ h none rfl (by simp)
    exact ⟨String.toList_inj.mp (hs.trans hjoin.symm), hl⟩
  · rintro ⟨rfl, hl⟩
    rw [tokenize, hjoin]
    exact scan_flatMap_chars hl

theorem isNormal_of_isNumeral {c : Char} (h : isNumeral c = true) : Text.IsNormal c :=
  of_isNumeral (P := Text.IsNormal) (by decide +kernel) h

/-- The characters of a token are neither blank nor changed by lowering the case. -/
theorem isNormal_of_mem_chars {t : Token} (h : t.IsWritable) {c : Char} (hc : c ∈ t.chars) :
    Text.IsNormal c := by
  cases t with
  | number v =>
    obtain ⟨x, xs, hx, hxs, hneg, hpos⟩ := exists_chars_eq_cons h
    rw [chars, hx] at hc
    rcases List.mem_cons.mp hc with rfl | hc
    · cases hs : isNegative v with
      | true =>
        rw [hneg hs]
        decide +kernel
      | false => exact isNormal_of_isNumeral (isNumeral_of_isDigit (hpos hs))
    · exact isNormal_of_isNumeral (hxs _ hc)
  | operator o =>
    have hall : (o.spelling.all fun x => decide (Text.IsNormal x)) = true := by
      cases o <;> decide +kernel
    exact of_decide_eq_true (List.all_eq_true.mp hall c hc)
  | opening =>
    obtain rfl := List.mem_singleton.mp hc
    decide +kernel
  | closing =>
    obtain rfl := List.mem_singleton.mp hc
    decide +kernel

theorem normalChars_chars {t : Token} (h : t.IsWritable) : Text.normalChars t.chars = t.chars :=
  Text.normalChars_of_isNormal fun _ => isNormal_of_mem_chars h

theorem Legible.isWritable {previous : Option Token} {ts : List Token} (h : Legible previous ts) :
    ∀ t ∈ ts, t.IsWritable := by
  induction ts generalizing previous with
  | nil => nofun
  | cons t ts ih =>
    intro u hu
    rcases List.mem_cons.mp hu with rfl | hu
    · exact h.1
    · exact ih h.2.2 u hu

theorem normalChars_intercalate (parts : List (List Char)) :
    Text.normalChars ([' '].intercalate parts) = parts.flatMap Text.normalChars := by
  have hblank : Text.normalChars [' '] = [] := by decide +kernel
  induction parts with
  | nil => rfl
  | cons cs parts ih =>
    cases parts with
    | nil => simp
    | cons ds parts =>
      rw [List.intercalate_cons_cons, Text.normalChars_append, Text.normalChars_append, hblank, ih]
      simp

/-- Without its spaces a line of tokens is their texts in a row. -/
theorem normalize_line {ts : List Token} (h : ∀ t ∈ ts, t.IsWritable) :
    Text.normalize (line ts) = String.join (ts.map text) := by
  have hparts : ts.flatMap (fun t => Text.normalChars t.chars) = ts.flatMap chars :=
    List.flatMap_congr fun t ht => normalChars_chars (h t ht)
  apply String.toList_inj.mp
  simp only [Text.normalize, line, String.toList_ofList, String.toList_intercalate, List.map_map,
    String.toList_join, List.flatMap_map]
  have hspace : " ".toList = [' '] := rfl
  rw [hspace, normalChars_intercalate, List.flatMap_map]
  simpa [text] using hparts

/-- The texts of tokens in a row are in normal form. -/
theorem normalize_join_text {ts : List Token} (h : ∀ t ∈ ts, t.IsWritable) :
    Text.normalize (String.join (ts.map text)) = String.join (ts.map text) := by
  have hchars : Text.normalChars (ts.flatMap chars) = ts.flatMap chars := by
    apply Text.normalChars_of_isNormal
    intro c hc
    obtain ⟨t, ht, hc⟩ := List.mem_flatMap.mp hc
    exact isNormal_of_mem_chars (h t ht) hc
  apply String.toList_inj.mp
  simpa [Text.normalize, text, List.flatMap_map] using hchars

/-- Reading succeeds exactly on the texts of legible tokens, which it gives back; and the line of
the tokens read is the text again once its spaces are gone. -/
theorem tokenize_inverts_text (s : String) (ts : List Token) :
    (tokenize s = .ok ts ↔ s = String.join (ts.map text) ∧ Legible none ts) ∧
      (tokenize s = .ok ts →
        Text.normalize (line ts) = s ∧ tokenize (Text.normalize (line ts)) = .ok ts) := by
  refine ⟨tokenize_eq_ok_iff, ?_⟩
  intro h
  obtain ⟨hs, hl⟩ := tokenize_eq_ok_iff.mp h
  have hline : Text.normalize (line ts) = s := (normalize_line hl.isWritable).trans hs.symm
  exact ⟨hline, hline.symm ▸ h⟩

end DeskCalculator.Token
