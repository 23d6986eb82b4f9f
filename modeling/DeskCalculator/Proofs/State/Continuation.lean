import DeskCalculator.Proofs.State.Answer
import DeskCalculator.Proofs.State.Typing

/-! # Going on from an answer

The answer stands in the input as its text. A binary operator is typed behind it and a function around it, and
no key after them takes the answer away again. Its text is read as the answer, negative or not, so what
comes next is calculated with the very number that was shown.
-/
namespace DeskCalculator.State
open Binary64

variable {settings : Settings} {s t : State} {a : Float} {e : Expression} {o : Operator}

/-- The input has the outcome `x`, which `=` shows: a rounded value, or an error that leaves the entries. -/
structure ComesTo (settings : Settings) (s : State) (x : Except EvalError Float) : Prop where
  evaluate_eq : evaluate s.input = x
  of_ok : ∀ v, x = .ok v → (s.press settings .equals).entries = [text (roundTo settings.places v)] ∧
    (s.press settings .equals).error = none
  of_error : ∀ e, x = .error e → (s.press settings .equals).entries = s.entries ∧
    (s.press settings .equals).error = some errorText

theorem comesTo_of_evaluate {x : Except EvalError Float} (h : evaluate s.input = x) :
    ComesTo settings s x where
  evaluate_eq := h
  of_ok := by
    intro v hv
    rw [press_equals_of_ok (h.trans hv)]
    exact ⟨rfl, rfl⟩
  of_error := by
    intro e he
    rw [press_equals_of_error (h.trans he)]
    exact ⟨rfl, rfl⟩

/-- A binary operator goes behind the answer. -/
theorem Shows.press_operator (h : Shows settings t a) (ho : o.arity = 2) :
    t.press settings (.operator o) =
      { t with entries := [text a, o.symbol], justEvaluated := false, error := none } := by
  have hbinary : o.isFunction = false := by simp [Operator.isFunction, ho]
  simp [press, Key.text, insert, Key.isDigit, Key.isFunction, hbinary, h.entries_eq]

/-- A function goes around the answer, but for the `)`. -/
theorem Shows.press_function (h : Shows settings t a) (ho : o.arity = 1) :
    t.press settings (.operator o) =
      { t with entries := [o.symbol, "(", text a], justEvaluated := false, error := none } := by
  have hfunction : o.isFunction = true := beq_of_eq ho
  simp [press, Key.text, insert, Key.isDigit, Key.isFunction, hfunction, h.entries_eq, h.justEvaluated_eq]

/-- Behind the answer the operator and the keys of an expression are read as its tokens. -/
theorem Shows.expressionTokens_pressAll_operator (h : Shows settings t a) (ho : o.arity = 2)
    (hs : e.Saturated) (hd : e.Delimited) (hl : ∀ v, .number v ∈ e.tokens → IsLiteral v) :
    expressionTokens (t.pressAll settings (.operator o :: e.keys)).input =
      .ok (.number a :: .operator o :: e.tokens) := by
  have hflag : (t.press settings (.operator o)).justEvaluated = false := by rw [h.press_operator ho]
  obtain ⟨hentries, -⟩ := pressAll_of_text settings hflag (Expression.adds_keys hs hd hl).isSome_text
  have hinput : (t.pressAll settings (.operator o :: e.keys)).input =
      String.join ((.number a :: .operator o :: e.tokens).map Token.text) := by
    rw [h.press_operator ho] at hentries
    rw [pressAll, List.foldl_cons, h.press_operator ho, input]
    refine (congrArg String.join hentries).trans ?_
    rw [String.join_append, Expression.join_keys_entries hs hd hl, Expression.text]
    simp [Token.text, Token.chars, Binary64.text, Operator.symbol, String.append_assoc]
  rw [hinput]
  apply expressionTokens_join_text
  have hminus : Token.MayFollow (some (.number a)) (.operator o) := by
    cases o with
    | minus => rfl
    | _ => trivial
  have hrest := Expression.legible_tokens_append hs hl (some (.operator o)) rfl [] fun _ _ => trivial
  rw [List.append_nil] at hrest
  exact ⟨h.isLiteral, ⟨rfl, by simp⟩, trivial, hminus, hrest⟩

theorem Shows.comesTo_operator (h : Shows settings t a) (ho : o.arity = 2) (hs : e.Saturated)
    (hd : e.Delimited) (hl : ∀ v, .number v ∈ e.tokens → IsLiteral v) :
    ComesTo settings (t.pressAll settings (.operator o :: e.keys))
      (toPostfix (.number a :: .operator o :: e.tokens) >>= evalPostfix) := by
  apply comesTo_of_evaluate
  rw [evaluate, h.expressionTokens_pressAll_operator ho hs hd hl]
  rfl

/-- The operator is applied to the answer and the literal behind it. -/
theorem Shows.comesTo_literal (h : Shows settings t a) (ho : o.arity = 2) {n : Float} (hn : IsLiteral n) :
    ComesTo settings (t.pressAll settings (.operator o :: (Expression.number n).keys))
      (o.apply [a, n]) := by
  have hl : ∀ v, .number v ∈ (Expression.number n).tokens → IsLiteral v := by
    simpa [Expression.tokens] using hn
  have hconverted : toPostfix (.number a :: .operator o :: (Expression.number n).tokens) =
      .ok (Expression.binary o (.number a) (.number n)).postorder := by
    simp [toPostfix, convert, release, Expression.tokens, Expression.postorder]
  have hcomes := h.comesTo_operator (e := .number n) ho trivial trivial hl
  rw [hconverted] at hcomes
  apply comesTo_of_evaluate
  rw [hcomes.evaluate_eq]
  exact Expression.evalPostfix_postorder (.binary o (.number a) (.number n)) ⟨ho, trivial, trivial⟩

theorem Shows.entries_pressAll_function (h : Shows settings t a) (ho : o.arity = 1) :
    (t.pressAll settings [.operator o, .closing]).entries = [o.symbol, "(", text a, ")"] := by
  have hflag : (t.press settings (.operator o)).justEvaluated = false := by rw [h.press_function ho]
  rw [pressAll, List.foldl_cons, List.foldl_cons, press_of_text hflag rfl, h.press_function ho]
  rfl

/-- The function is applied to the answer. -/
theorem Shows.comesTo_function (h : Shows settings t a) (ho : o.arity = 1) :
    expressionTokens (t.pressAll settings [.operator o, .closing]).input =
        .ok [.operator o, .opening, .number a, .closing] ∧
      ComesTo settings (t.pressAll settings [.operator o, .closing]) (o.apply [a]) := by
  have htokens : expressionTokens (t.pressAll settings [.operator o, .closing]).input =
      .ok [.operator o, .opening, .number a, .closing] := by
    have hinput : (t.pressAll settings [.operator o, .closing]).input =
        String.join ([.operator o, .opening, .number a, .closing].map Token.text) := by
      rw [input, h.entries_pressAll_function ho]
      rfl
    have hfirst : Token.MayFollow none (.operator o) := by
      cases o with
      | minus => cases ho
      | _ => trivial
    rw [hinput]
    apply expressionTokens_join_text
    exact ⟨trivial, hfirst, trivial, trivial, h.isLiteral, ⟨rfl, by simp⟩, trivial, trivial, trivial⟩
  have hconverted : toPostfix [.operator o, .opening, .number a, .closing] =
      .ok (Expression.call o (.group (.number a))).postorder := by
    simp [toPostfix, convert, release, Expression.postorder]
  refine ⟨htokens, comesTo_of_evaluate ?_⟩
  rw [evaluate_of_converted htokens hconverted]
  exact Expression.evalPostfix_postorder (.call o (.group (.number a))) ⟨ho, trivial⟩

/-- After an `=` that succeeds the answer `a` is the first operand of what is typed next: a binary operator
and an expression are evaluated as their tokens behind the number `a`, a function and a `)` as the
function of `a`. What comes of it is shown rounded, and an error leaves the entries. -/
theorem pressAll_after_answer (settings : Settings) {s : State}
    (h : (s.press settings .equals).error = none) :
    let t := s.press settings .equals
    ∃ v a, evaluate s.input = .ok v ∧ a = roundTo settings.places v ∧ IsLiteral a ∧
      t.entries = [text a] ∧
      (∀ (o : Operator) (e : Expression), o.arity = 2 → Derives .atom .sum e → e.Delimited →
        (∀ n, .number n ∈ e.tokens → IsLiteral n) →
          let u := t.pressAll settings (.operator o :: e.keys)
          let ts : List Token := .number a :: .operator o :: e.tokens
          expressionTokens u.input = .ok ts ∧ ComesTo settings u (toPostfix ts >>= evalPostfix)) ∧
      (∀ (o : Operator) (n : Float), o.arity = 2 → IsLiteral n →
        ComesTo settings (t.pressAll settings (.operator o :: (Expression.number n).keys))
          (o.apply [a, n])) ∧
      ∀ o : Operator, o.arity = 1 →
        let u := t.pressAll settings [.operator o, .closing]
        u.entries = [o.symbol, "(", text a, ")"] ∧
          expressionTokens u.input = .ok [.operator o, .opening, .number a, .closing] ∧
          ComesTo settings u (o.apply [a]) := by
  intro t
  obtain ⟨v, hv⟩ := error_press_equals_eq_none_iff.mp h
  have ht : t = s.answered settings v := press_equals_of_ok hv
  have hshows : Shows settings t (roundTo settings.places v) := ht ▸ shows_answered hv
  refine ⟨v, _, hv, rfl, hshows.isLiteral, hshows.entries_eq, ?_, ?_, ?_⟩
  · intro o e ho he hd hl
    obtain ⟨hs, -, -⟩ := derives_iff_ordered.mp he
    exact ⟨hshows.expressionTokens_pressAll_operator ho hs hd hl, hshows.comesTo_operator ho hs hd hl⟩
  · intro o n ho hn
    exact hshows.comesTo_literal ho hn
  · intro o ho
    exact ⟨hshows.entries_pressAll_function ho, hshows.comesTo_function ho⟩

/-- The square of -2 is taken of the number and not of 2, and a division by zero leaves the entries. -/
theorem pressAll_after_answer_negative :
    let t := press {} { entries := ["2", "-", "4"] } .equals
    t.error = none ∧
      ComesTo {} (t.pressAll {} [.operator .power, .digit 2]) (Operator.power.apply [-2, 2]) ∧
      ((t.pressAll {} [.operator .divide, .digit 0]).press {} .equals).entries =
        (t.pressAll {} [.operator .divide, .digit 0]).entries := by
  intro t
  have h : t.error = none := by decide +kernel
  have hvalue : evaluate (input { entries := ["2", "-", "4"] }) = .ok (-2) := by decide +kernel
  have hround : roundTo 6 (-2) = -2 := by decide +kernel
  obtain ⟨v, a, hv, ha, -, -, -, hliteral, -⟩ := pressAll_after_answer {} h
  cases hvalue.symm.trans hv
  rw [show a = -2 from ha.trans hround] at hliteral
  have hsquare := hliteral .power 2 rfl (by decide +kernel)
  have hdivision := hliteral .divide 0 rfl (by decide +kernel)
  have htwo : (Expression.number 2).keys = [.digit 2] := by decide +kernel
  have hzero : (Expression.number 0).keys = [.digit 0] := by decide +kernel
  rw [htwo] at hsquare
  rw [hzero] at hdivision
  exact ⟨h, hsquare, (hdivision.of_error .divisionByZero (by decide +kernel)).1⟩

end DeskCalculator.State
