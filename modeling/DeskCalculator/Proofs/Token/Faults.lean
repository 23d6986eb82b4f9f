import DeskCalculator.Proofs.Token.Reading

/-! # Why a text cannot be read

A text cannot be read when some part of it can and is followed by a lexeme that is no token: a numeral that
is the text of no literal, or characters that begin no symbol or break one off. There is only one such place
in a text, and the lexeme there is the error.
-/
namespace DeskCalculator.Token
open Binary64

def IsUnfinished (cs : List Char) : Prop := ∃ o : Operator, cs <+: o.spelling ∧ cs ≠ o.spelling

/-- Digits and points, perhaps behind a minus, that stand as one numeral behind the token `previous` and are
the text of no literal. -/
structure IsBadNumeral (previous : Option Token) (rest b : List Char) : Prop where
  eq_cons : ∃ c cs, b = c :: cs ∧ (isNumeral c = true ∨ c = '-') ∧ ∀ x ∈ cs, isNumeral x = true
  not_isNumeral_rest : ∀ c ∈ rest.head?, isNumeral c = false
  ne_chars : ∀ v, IsLiteral v → Binary64.chars v ≠ b
  after_minus : b.head? = some '-' → previous.any endsOperand = false
  after_numeral : b.head?.any isNumeral = true → previous.any isNumber = false

/-- Characters of which all but the last begin a symbol, while all of them begin none or are broken off. -/
structure IsBadSymbol (rest b : List Char) : Prop where
  ne_nil : b ≠ []
  not_isNumeral : ∀ c ∈ b, isNumeral c = false
  isUnfinished_dropLast : IsUnfinished b.dropLast
  unknown_or_broken_off :
    ((∀ o : Operator, ¬b <+: o.spelling) ∧ b ≠ ['('] ∧ b ≠ [')']) ∨
      IsUnfinished b ∧ ∀ c ∈ rest.head?, isNumeral c = true

inductive IsBadLexeme (previous : Option Token) (rest b : List Char) : EvalError → Prop
  | numeral (h : IsBadNumeral previous rest b) :
      IsBadLexeme previous rest b (.invalidNumber (String.ofList b))
  | symbol (h : IsBadSymbol rest b) :
      IsBadLexeme previous rest b (.unknownSymbol (String.ofList b))

/-- The text can be read up to the end of `p`, and the lexeme `b` that follows there is an error. -/
def FailsAt (s : String) (p b : List Char) (e : EvalError) : Prop :=
  ∃ rest ts, s = String.ofList (p ++ b ++ rest) ∧ tokenize (String.ofList p) = .ok ts ∧
    IsBadLexeme ts.getLast? rest b e

section symbols
variable {held cs b rest : List Char} {c : Char}

theorem isUnfinished_nil : IsUnfinished [] := ⟨.plus, List.nil_prefix, by decide⟩

theorem IsUnfinished.of_prefix (h : IsUnfinished cs) (hb : b <+: cs) : IsUnfinished b := by
  obtain ⟨o, hcs, hne⟩ := h
  refine ⟨o, hb.trans hcs, ?_⟩
  rintro rfl
  exact hne (hcs.eq_of_length_le hb.length_le)

/-- To hold of what begins a symbol is to hold of the parts of every symbol. -/
theorem IsUnfinished.of_forall_inits {P : List Char → Prop} (h : IsUnfinished cs)
    (hP : ∀ o ∈ Operator.all, ∀ ds ∈ o.spelling.inits, ds ≠ o.spelling → P ds) : P cs := by
  obtain ⟨o, hcs, hne⟩ := h
  exact hP o (Operator.mem_all o) cs ((List.mem_inits cs _).mpr hcs) hne

/-- No symbol begins another one. -/
theorem IsUnfinished.ofSymbol?_eq_none (h : IsUnfinished cs) : ofSymbol? cs = none :=
  h.of_forall_inits (P := fun cs => ofSymbol? cs = none) (by decide)

theorem IsUnfinished.head?_ne_minus (h : IsUnfinished cs) : cs.head? ≠ some '-' :=
  h.of_forall_inits (P := fun cs => cs.head? ≠ some '-') (by decide)

theorem isSymbolStart_eq_true_iff : isSymbolStart cs = true ↔
    (∃ o : Operator, cs <+: o.spelling) ∨ cs = ['('] ∨ cs = [')'] := by
  have hall : Operator.all.any (fun o => cs.isPrefixOf o.spelling) = true ↔
      ∃ o : Operator, cs <+: o.spelling := by
    simp [Operator.mem_all]
  have hparenthesis : (cs.length == 1 && cs.all isParenthesis) = true ↔ cs = ['('] ∨ cs = [')'] := by
    simp only [Bool.and_eq_true, beq_iff_eq, List.length_eq_one_iff]
    constructor
    · rintro ⟨⟨c, rfl⟩, hc⟩
      simpa [isParenthesis] using hc
    · rintro (rfl | rfl) <;> simp [isParenthesis]
  rw [isSymbolStart, Bool.or_eq_true, hall, hparenthesis]

theorem isSymbolStart_eq_false_iff : isSymbolStart cs = false ↔
    (∀ o : Operator, ¬cs <+: o.spelling) ∧ cs ≠ ['('] ∧ cs ≠ [')'] := by
  rw [← Bool.not_eq_true, isSymbolStart_eq_true_iff]
  simp

theorem ofSymbol?_eq_none_of_isSymbolStart (h : isSymbolStart cs = false) : ofSymbol? cs = none := by
  obtain ⟨hoperator, hopening, hclosing⟩ := isSymbolStart_eq_false_iff.mp h
  rw [Option.eq_none_iff_forall_ne_some]
  intro t ht
  obtain ⟨rfl, hn⟩ := eq_chars_of_ofSymbol? ht
  cases t with
  | number v => cases hn
  | operator o => exact hoperator o List.prefix_rfl
  | opening => exact hopening rfl
  | closing => exact hclosing rfl

/-- A symbol that is begun is read on. -/
theorem readSymbol_of_isUnfinished (h : IsUnfinished (held ++ [c])) (hc : isNumeral c = false)
    (cs : List Char) : readSymbol held (c :: cs) = readSymbol (held ++ [c]) cs := by
  have hstart : isSymbolStart (held ++ [c]) = true := by
    obtain ⟨o, ho, -⟩ := h
    exact isSymbolStart_eq_true_iff.mpr (.inl ⟨o, ho⟩)
  simp [readSymbol, hc, h.ofSymbol?_eq_none, hstart]

/-- Reading a symbol fails with the bad symbol that stands there. -/
theorem readSymbol_of_isBadSymbol (h : IsBadSymbol rest (held ++ b)) (hb : b ≠ []) :
    readSymbol held (b ++ rest) = .error (held ++ b) := by
  induction b generalizing held with
  | nil => exact absurd rfl hb
  | cons c cs ih =>
    have hc : isNumeral c = false := h.not_isNumeral c (by simp)
    cases cs with
    | cons d cs =>
      have hbegun : IsUnfinished (held ++ [c]) := by
        refine h.isUnfinished_dropLast.of_prefix ⟨(d :: cs).dropLast, ?_⟩
        simp
      have ih := @ih (held ++ [c])
      rw [List.append_assoc, List.singleton_append] at ih
      rw [List.cons_append, readSymbol_of_isUnfinished hbegun hc]
      exact ih h (by simp)
    | nil =>
      rcases h.unknown_or_broken_off with hunknown | ⟨hbegun, hrest⟩
      · have hstart := isSymbolStart_eq_false_iff.mpr hunknown
        simp [readSymbol, hc, ofSymbol?_eq_none_of_isSymbolStart hstart, hstart]
      · rw [List.singleton_append, readSymbol_of_isUnfinished hbegun hc]
        cases rest with
        | nil => rfl
        | cons d rest => simp [readSymbol, hrest d rfl]

theorem isBadSymbol_of_isUnfinished (h : IsUnfinished b) (hne : b ≠ [])
    (hn : ∀ c ∈ b, isNumeral c = false) (hrest : ∀ c ∈ rest.head?, isNumeral c = true) :
    IsBadSymbol rest b where
  ne_nil := hne
  not_isNumeral := hn
  isUnfinished_dropLast := h.of_prefix (List.dropLast_prefix b)
  unknown_or_broken_off := .inr ⟨h, hrest⟩

/-- A text that begins a symbol is one or is shorter. -/
theorem isSymbolStart_eq_false (h : ¬IsUnfinished cs) (hnone : ofSymbol? cs = none) :
    isSymbolStart cs = false := by
  rw [Bool.eq_false_iff, Ne, isSymbolStart_eq_true_iff]
  rintro (⟨o, ho⟩ | rfl | rfl)
  · have hcs : cs = o.spelling := by
      by_contra hne
      exact h ⟨o, ho, hne⟩
    rw [hcs] at hnone
    cases o <;> cases hnone
  · cases hnone
  · cases hnone

/-- What reading a symbol fails with is a bad symbol if any character was read at all. -/
theorem isBadSymbol_of_readSymbol (hheld : IsUnfinished held) (hn : ∀ c ∈ held, isNumeral c = false)
    (h : readSymbol held cs = .error b) (hne : held = [] → ∃ c ∈ cs.head?, isNumeral c = false) :
    ∃ new rest, cs = new ++ rest ∧ b = held ++ new ∧ IsBadSymbol rest b := by
  induction cs generalizing held with
  | nil =>
    cases h
    have hb : b ≠ [] := by
      intro hb
      obtain ⟨c, hc, -⟩ := hne hb
      cases hc
    exact ⟨[], [], rfl, by simp, isBadSymbol_of_isUnfinished hheld hb hn nofun⟩
  | cons c cs ih =>
    by_cases hc : isNumeral c = true
    · simp only [readSymbol, hc, if_true] at h
      cases h
      have hb : b ≠ [] := by
        intro hb
        obtain ⟨d, hd, hf⟩ := hne hb
        obtain rfl := Option.some.inj hd
        rw [hc] at hf
        cases hf
      refine ⟨[], c :: cs, rfl, by simp, isBadSymbol_of_isUnfinished hheld hb hn ?_⟩
      intro d hd
      obtain rfl := Option.some.inj hd
      exact hc
    · rw [Bool.not_eq_true] at hc
      have hn : ∀ d ∈ held ++ [c], isNumeral d = false :=
        List.forall_mem_append.mpr ⟨hn, by simpa using hc⟩
      by_cases hbegun : IsUnfinished (held ++ [c])
      · rw [readSymbol_of_isUnfinished hbegun hc] at h
        obtain ⟨new, rest, rfl, rfl, hbad⟩ := ih hbegun hn h (by simp)
        exact ⟨c :: new, rest, rfl, by simp, hbad⟩
      · cases hsymbol : ofSymbol? (held ++ [c]) with
        | some t => simp [readSymbol, hc, hsymbol] at h
        | none =>
          have hstart := isSymbolStart_eq_false hbegun hsymbol
          simp only [readSymbol, hc, hsymbol, hstart, Bool.false_eq_true, if_false] at h
          cases h
          refine ⟨[c], cs, rfl, rfl, ?_⟩
          exact {
            ne_nil := by simp
            not_isNumeral := hn
            isUnfinished_dropLast := by rwa [List.dropLast_concat]
            unknown_or_broken_off := .inl (isSymbolStart_eq_false_iff.mp hstart) }

end symbols

section lexemes
variable {previous : Option Token} {b rest q tail : List Char} {e : EvalError}

/-- No numeral begins where a bad lexeme follows a number. -/
theorem IsBadLexeme.takeWhile_eq_nil (h : IsBadLexeme previous rest b e)
    (hn : previous.any isNumber = true) : (b ++ rest).takeWhile isNumeral = [] := by
  cases h with
  | numeral h =>
    obtain ⟨c, cs, rfl, -, -⟩ := h.eq_cons
    rw [takeWhile_isNumeral_eq_nil_iff]
    rintro d ⟨⟩
    rw [Bool.eq_false_iff]
    intro hc
    rw [h.after_numeral hc] at hn
    cases hn
  | symbol h =>
    obtain ⟨c, cs, rfl⟩ := List.exists_cons_of_ne_nil h.ne_nil
    simp [h.not_isNumeral c List.mem_cons_self]

/-- The characters with which a symbol begins are read as those of a symbol. -/
theorem IsBadSymbol.not_numeral_start (h : IsBadSymbol rest b) {c : Char} {cs : List Char}
    (hb : b = c :: cs) (after : Bool) : ¬(isNumeral c || (c == '-' && !after)) = true := by
  subst hb
  have hc := h.not_isNumeral c List.mem_cons_self
  have hminus : c ≠ '-' := by
    rintro rfl
    cases cs with
    | cons d cs => exact h.isUnfinished_dropLast.head?_ne_minus rfl
    | nil =>
      rcases h.unknown_or_broken_off with hunknown | ⟨hbegun, -⟩
      · exact hunknown.1 .minus List.prefix_rfl
      · exact hbegun.head?_ne_minus rfl
  simp [hc, hminus]

theorem IsBadNumeral.start {c : Char} {cs : List Char} (h : IsBadNumeral previous rest (c :: cs)) :
    (isNumeral c || (c == '-' && !previous.any endsOperand)) = true := by
  obtain ⟨d, ds, hb, hc, -⟩ := h.eq_cons
  obtain ⟨rfl, rfl⟩ := List.cons.inj hb
  rcases hc with hc | rfl
  · simp [hc]
  · simp [h.after_minus rfl]

theorem scan_invalid {afterOperand : Bool} {c : Char} {cs rest : List Char}
    (hc : (isNumeral c || (c == '-' && !afterOperand)) = true)
    (hcs : ∀ x ∈ cs, isNumeral x = true) (hrest : rest.takeWhile isNumeral = [])
    (hv : readNumber (c :: cs) = none) :
    scan afterOperand (c :: cs ++ rest) = .error (.invalidNumber (String.ofList (c :: cs))) := by
  rw [List.cons_append, scan, if_pos hc]
  simp only [(takeWhile_append_of_stop hcs hrest).1, hv]

/-- At a bad lexeme the scanner stops. -/
theorem scan_of_isBadLexeme (h : IsBadLexeme previous rest b e) :
    scan (previous.any endsOperand) (b ++ rest) = .error e := by
  cases h with
  | numeral h =>
    obtain ⟨c, cs, rfl, hc, hcs⟩ := h.eq_cons
    have hread : readNumber (c :: cs) = none := by
      rw [Option.eq_none_iff_forall_ne_some]
      intro v hv
      obtain ⟨hl, hchars⟩ := isLiteral_of_readNumber hcs hc hv
      exact h.ne_chars v hl hchars
    exact scan_invalid h.start hcs (takeWhile_isNumeral_eq_nil_iff.mpr h.not_isNumeral_rest) hread
  | symbol h =>
    obtain ⟨c, cs, hb⟩ := List.exists_cons_of_ne_nil h.ne_nil
    have hread : readSymbol [] (b ++ rest) = .error b := readSymbol_of_isBadSymbol h h.ne_nil
    have hstart := h.not_numeral_start hb (previous.any endsOperand)
    subst hb
    rw [List.cons_append] at hread ⊢
    rw [scan, if_neg hstart]
    split
    case h_1 he =>
      cases he.symm.trans hread
      rfl
    case h_2 he => cases he.symm.trans hread

/-- The digits and points at the beginning are a bad numeral if they are not read as a number. -/
theorem isBadNumeral_of_readNumber {c : Char} {cs : List Char}
    (hc : (isNumeral c || (c == '-' && !previous.any endsOperand)) = true)
    (hn : previous.any isNumber = true → (c :: cs).takeWhile isNumeral = [])
    (hv : readNumber (c :: cs.takeWhile isNumeral) = none) :
    IsBadNumeral previous (cs.dropWhile isNumeral) (c :: cs.takeWhile isNumeral) := by
  simp only [Bool.or_eq_true, Bool.and_eq_true, beq_iff_eq, Bool.not_eq_true'] at hc
  exact {
    eq_cons := ⟨c, _, rfl, hc.imp_right And.left, fun x hx => List.mem_takeWhile_imp hx⟩
    not_isNumeral_rest := takeWhile_isNumeral_eq_nil_iff.mp (takeWhile_dropWhile isNumeral cs)
    ne_chars := by
      intro v hl hchars
      rw [← hchars, readNumber_chars hl] at hv
      cases hv
    after_minus := by
      intro hminus
      obtain rfl : c = '-' := Option.some.inj hminus
      exact (hc.resolve_left (by decide)).2
    after_numeral := by
      intro hnumeral
      rw [Bool.eq_false_iff]
      intro hnumber
      have hnone := hn hnumber
      rw [List.takeWhile_cons, if_pos (show isNumeral c = true from hnumeral)] at hnone
      cases hnone }

/-- Where the scanner fails, a part of the text is read and a bad lexeme follows. -/
theorem exists_isBadLexeme_of_scan {after : Bool} {cs : List Char} (h : scan after cs = .error e)
    (hp : previous.any endsOperand = after)
    (hn : previous.any isNumber = true → cs.takeWhile isNumeral = []) :
    ∃ p ts b rest, cs = p ++ b ++ rest ∧ scan after p = .ok ts ∧
      IsBadLexeme (ts.getLast?.or previous) rest b e := by
  -- Along the scanner: `previous` is the token of which the flag remembers whether it ends an operand.
  fun_induction scan generalizing previous with
  | case1 => cases h
  | case2 after c cs hc lexeme =>
    rename_i hv
    cases h
    subst hp
    have hsplit : c :: cs = lexeme ++ cs.dropWhile isNumeral := by
      rw [List.cons_append, List.takeWhile_append_dropWhile]
    exact ⟨[], [], lexeme, _, hsplit, by rw [scan], .numeral (isBadNumeral_of_readNumber hc hn hv)⟩
  | case3 after c cs hc lexeme v hv =>
    rename_i ih
    obtain ⟨p, ts, b, rest, hcs, hts, hbad⟩ := @ih (some (number v))
      (map_eq_error_iff.mp h) rfl fun _ => takeWhile_dropWhile isNumeral cs
    have hstop : p.takeWhile isNumeral = [] := by
      have hall := takeWhile_dropWhile isNumeral cs
      rw [hcs, List.append_assoc, takeWhile_isNumeral_eq_nil_iff] at hall
      rw [takeWhile_isNumeral_eq_nil_iff]
      intro d hd
      exact hall d (by simp [List.head?_append, Option.mem_def.mp hd])
    have hnumerals : ∀ x ∈ cs.takeWhile isNumeral, isNumeral x = true := by
      intro x hx
      exact List.mem_takeWhile_imp hx
    obtain ⟨htake, hdrop⟩ := takeWhile_append_of_stop hnumerals hstop
    refine ⟨lexeme ++ p, number v :: ts, b, rest, ?_, ?_, ?_⟩
    · simp only [lexeme, List.cons_append, List.append_assoc]
      rw [← List.append_assoc p, ← hcs, List.takeWhile_append_dropWhile]
    · rw [List.cons_append, scan_number hc (by rwa [htake]), hdrop, hts]
      rfl
    · rwa [getLast?_cons_or]
  | case4 after c cs hc lexeme hs =>
    cases h
    have hf : isNumeral c = false := by
      simp only [Bool.or_eq_true, not_or, Bool.not_eq_true] at hc
      exact hc.1
    obtain ⟨new, rest, hcs, rfl, hbad⟩ :=
      isBadSymbol_of_readSymbol isUnfinished_nil (by simp) hs fun _ => ⟨c, rfl, hf⟩
    exact ⟨[], [], _, rest, hcs, by rw [scan], .symbol hbad⟩
  | case5 after c cs hc t rest hs ih =>
    obtain ⟨htext, hsymbol⟩ := eq_append_of_readSymbol hs
    obtain ⟨p, ts, b, tail, rfl, hts, hbad⟩ := @ih (some t) (map_eq_error_iff.mp h) rfl
      (by simp [hsymbol])
    refine ⟨t.chars ++ p, t :: ts, b, tail, ?_, ?_, ?_⟩
    · simpa using htext
    · subst hp
      have hminus : t = operator .minus → previous.any endsOperand = true := by
        rintro rfl
        exact mayFollow_symbol hsymbol (fun _ => (List.cons.inj htext).1) hc
      rw [scan_symbol_append hsymbol hminus, hts]
      rfl
    · rwa [getLast?_cons_or]

/-- Whether a lexeme is bad depends on what follows it only by the next character. -/
theorem IsBadLexeme.of_append (h : IsBadLexeme previous (rest ++ tail) b e) :
    IsBadLexeme previous rest b e := by
  have hhead : ∀ c ∈ rest.head?, c ∈ (rest ++ tail).head? := by
    intro c hc
    simp [List.head?_append, Option.mem_def.mp hc]
  cases h with
  | numeral h =>
    exact .numeral { h with not_isNumeral_rest := fun c hc => h.not_isNumeral_rest c (hhead c hc) }
  | symbol h =>
    refine .symbol { h with unknown_or_broken_off := h.unknown_or_broken_off.imp id ?_ }
    rintro ⟨hbegun, hnumeral⟩
    exact ⟨hbegun, fun c hc => hnumeral c (hhead c hc)⟩

/-- The error tells the lexeme. -/
theorem IsBadLexeme.eq_of_error_eq {previous' : Option Token} {rest' b' : List Char}
    (h : IsBadLexeme previous rest b e) (h' : IsBadLexeme previous' rest' b' e) : b = b' := by
  cases h with
  | numeral _ =>
    generalize he : EvalError.invalidNumber (String.ofList b) = e at h'
    cases h' with
    | numeral _ => exact String.ofList_injective (EvalError.invalidNumber.inj he)
    | symbol _ => cases he
  | symbol _ =>
    generalize he : EvalError.unknownSymbol (String.ofList b) = e at h'
    cases h' with
    | numeral _ => cases he
    | symbol _ => exact String.ofList_injective (EvalError.unknownSymbol.inj he)

/-- Nothing that ends inside a bad lexeme or after it can be read, but a number out of a numeral. -/
theorem eq_number_of_scan (h : IsBadLexeme previous rest b e) (hsplit : q ++ tail = b ++ rest)
    (hne : q ≠ []) {us : List Token} (hus : scan (previous.any endsOperand) q = .ok us) :
    ∃ v, us = [number v] ∧ ∃ c ∈ tail.head?, isNumeral c = true := by
  -- `q` ends inside the lexeme or at its end, or goes on behind it.
  rcases List.append_eq_append_iff.mp hsplit with ⟨b', rfl, rfl⟩ | ⟨q', rfl, rfl⟩
  · cases b' with
    | nil =>
      rw [List.append_nil] at h
      have hend : IsBadLexeme previous [] q e := h.of_append
      have hstop := scan_of_isBadLexeme hend
      rw [List.append_nil, hus] at hstop
      cases hstop
    | cons d ds =>
      cases h with
      | numeral h =>
        obtain ⟨c, cs, hb, -, hcs⟩ := h.eq_cons
        obtain ⟨c', q, rfl⟩ := List.exists_cons_of_ne_nil hne
        obtain ⟨rfl, rfl⟩ := List.cons.inj hb
        obtain ⟨hq, hds⟩ := List.forall_mem_append.mp hcs
        have hnone : ([] : List Char).takeWhile isNumeral = [] := rfl
        obtain ⟨htake, hdrop⟩ := takeWhile_append_of_stop hq hnone
        rw [List.append_nil] at htake hdrop
        cases hv : readNumber (c' :: q) with
        | none =>
          have hstop := scan_invalid h.start hq hnone hv
          rw [List.append_nil, hus] at hstop
          cases hstop
        | some v =>
          rw [scan_number h.start (by rwa [htake]), hdrop, scan] at hus
          cases hus
          exact ⟨v, rfl, d, rfl, hds d List.mem_cons_self⟩
      | symbol h =>
        have hbegun : IsUnfinished q :=
          h.isUnfinished_dropLast.of_prefix ⟨(d :: ds).dropLast, by simp⟩
        have hn : ∀ c ∈ q, isNumeral c = false := (List.forall_mem_append.mp h.not_isNumeral).1
        have hbad : IsBadSymbol [] q := isBadSymbol_of_isUnfinished hbegun hne hn (by simp)
        have hend : IsBadLexeme previous [] q _ := .symbol hbad
        have hstop := scan_of_isBadLexeme hend
        rw [List.append_nil, hus] at hstop
        cases hstop
  · have hstop := scan_of_isBadLexeme h.of_append
    rw [hus] at hstop
    cases hstop

end lexemes

theorem tokenize_append {p q : List Char} {ts : List Token} (hp : tokenize (String.ofList p) = .ok ts)
    (hq : ts.getLast?.any isNumber = true → q.takeWhile isNumeral = []) :
    tokenize (String.ofList (p ++ q)) =
      (ts ++ ·) <$> scan (ts.getLast?.any endsOperand) q := by
  obtain ⟨htext, hlegible⟩ := tokenize_eq_ok_iff.mp hp
  obtain rfl : p = ts.flatMap chars := by
    have := congrArg String.toList htext
    simpa [List.flatMap_map, text] using this
  have hscan := scan_flatMap_chars_append hlegible q
  rw [Option.or_none] at hscan
  rw [tokenize, String.toList_ofList]
  exact hscan hq

section faults
variable {s : String} {p b q b' : List Char} {e e' : EvalError}

theorem tokenize_of_failsAt (h : FailsAt s p b e) : tokenize s = .error e := by
  obtain ⟨rest, ts, rfl, hp, hbad⟩ := h
  rw [List.append_assoc, tokenize_append hp hbad.takeWhile_eq_nil, scan_of_isBadLexeme hbad]
  rfl

theorem exists_failsAt_of_tokenize (h : tokenize s = .error e) : ∃ p b, FailsAt s p b e := by
  have hstart : (none : Option Token).any endsOperand = false := rfl
  obtain ⟨p, ts, b, rest, hs, hp, hbad⟩ := exists_isBadLexeme_of_scan h hstart nofun
  rw [Option.or_none] at hbad
  refine ⟨p, b, rest, ts, ?_, ?_, hbad⟩
  · rw [← hs, String.ofList_toList]
  · rwa [tokenize, String.toList_ofList]

/-- Reading fails on a numeral or on a symbol. -/
theorem exists_lexeme_of_tokenize (h : tokenize s = .error e) :
    ∃ lexeme, e = .invalidNumber lexeme ∨ e = .unknownSymbol lexeme := by
  obtain ⟨p, b, rest, ts, -, -, hbad⟩ := exists_failsAt_of_tokenize h
  cases hbad with
  | numeral _ => exact ⟨_, .inl rfl⟩
  | symbol _ => exact ⟨_, .inr rfl⟩

/-- A text does not fail again behind the place where it fails. -/
theorem FailsAt.eq_nil_of_append (h : FailsAt s p b e) (h' : FailsAt s (p ++ q) b' e') : q = [] := by
  obtain ⟨rest, ts, rfl, hp, hbad⟩ := h
  obtain ⟨rest', ts', hs, hp', hbad'⟩ := h'
  by_contra hne
  have hsplit : q ++ (b' ++ rest') = b ++ rest := by
    have := String.ofList_injective hs
    simpa using this.symm
  have hq : ts.getLast?.any isNumber = true → q.takeWhile isNumeral = [] := by
    intro hn
    have hstop := hbad.takeWhile_eq_nil hn
    obtain ⟨c, cs, rfl⟩ := List.exists_cons_of_ne_nil hne
    rw [← hsplit, takeWhile_isNumeral_eq_nil_iff] at hstop
    exact takeWhile_isNumeral_eq_nil_iff.mpr hstop
  rw [tokenize_append hp hq] at hp'
  cases hus : scan (ts.getLast?.any endsOperand) q with
  | error _ =>
    rw [hus] at hp'
    cases hp'
  | ok us =>
    rw [hus] at hp'
    cases hp'
    obtain ⟨v, rfl, c, hc, hnumeral⟩ := eq_number_of_scan hbad hsplit hne hus
    have hstop := hbad'.takeWhile_eq_nil (by simp [isNumber])
    rw [takeWhile_isNumeral_eq_nil_iff] at hstop
    rw [hstop c hc] at hnumeral
    cases hnumeral

theorem FailsAt.unique (h : FailsAt s p b e) (h' : FailsAt s q b' e') : p = q ∧ b = b' ∧ e = e' := by
  have he : e = e' := by
    have hs := tokenize_of_failsAt h
    rw [tokenize_of_failsAt h'] at hs
    exact (Except.error.inj hs).symm
  subst he
  obtain ⟨rest, ts, rfl, -, hbad⟩ := id h
  obtain ⟨rest', ts', hs, -, hbad'⟩ := id h'
  refine ⟨?_, hbad.eq_of_error_eq hbad', rfl⟩
  have hsplit := String.ofList_injective hs
  rw [List.append_assoc, List.append_assoc] at hsplit
  rcases List.append_eq_append_iff.mp hsplit with ⟨r, rfl, -⟩ | ⟨r, rfl, -⟩
  · rw [h.eq_nil_of_append h', List.append_nil]
  · rw [h'.eq_nil_of_append h, List.append_nil]

/-- Reading a text fails exactly when a part of it can be read and a bad lexeme follows, which is what the
error names. There is at most one such place. -/
theorem tokenize_eq_error_iff_failsAt (s : String) :
    (∀ e, tokenize s = .error e ↔ ∃ p b, FailsAt s p b e) ∧
      ∀ p b e p' b' e', FailsAt s p b e → FailsAt s p' b' e' → p = p' ∧ b = b' ∧ e = e' := by
  refine ⟨?_, ?_⟩
  · intro e
    refine ⟨exists_failsAt_of_tokenize, ?_⟩
    rintro ⟨p, b, h⟩
    exact tokenize_of_failsAt h
  · intro p b e p' b' e' h h'
    exact h.unique h'

/-- The numeral comes first; the symbol that is broken off at the end is no error any more. -/
theorem tokenize_eq_error_iff_failsAt_numeral :
    (∃ p b, FailsAt "2+1.0si" p b (.invalidNumber "1.0")) ∧
      ¬∃ p b, FailsAt "2+1.0si" p b (.unknownSymbol "si") := by
  have hfail : tokenize "2+1.0si" = .error (.invalidNumber "1.0") := by decide +kernel
  obtain ⟨hiff, hunique⟩ := tokenize_eq_error_iff_failsAt "2+1.0si"
  obtain ⟨p, b, hnumeral⟩ := (hiff _).mp hfail
  refine ⟨⟨p, b, hnumeral⟩, ?_⟩
  rintro ⟨q, c, hsymbol⟩
  obtain ⟨-, -, he⟩ := hunique p b _ q c _ hnumeral hsymbol
  cases he

end faults

end DeskCalculator.Token
