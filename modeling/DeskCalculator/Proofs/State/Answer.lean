import DeskCalculator.Proofs.State.History

/-! # Answers can be used again

An answer is a rounded double, so its text has the answer as its value and rounding leaves it alone.
Pressing `=` once more therefore changes nothing but the history, which gets the answer as one more
line, and any number of presses does so.
-/
namespace DeskCalculator.State
open Binary64

variable {settings : Settings} {s : State} {w : Float}

theorem evaluate_text_roundTo (places : Nat) {v : Float} (h : isFinite v = true) :
    evaluate (text (roundTo places v)) = .ok (roundTo places v) :=
  evaluate_text (isLiteral_roundTo places h)

/-- A state that shows an answer: a literal that rounding leaves alone. -/
structure Shows (settings : Settings) (s : State) (w : Float) : Prop where
  entries_eq : s.entries = [text w]
  justEvaluated_eq : s.justEvaluated = true
  error_eq : s.error = none
  isLiteral : IsLiteral w
  roundTo_eq : roundTo settings.places w = w

theorem shows_answered {v : Float} (h : evaluate s.input = .ok v) :
    Shows settings (s.answered settings v) (roundTo settings.places v) where
  entries_eq := rfl
  justEvaluated_eq := rfl
  error_eq := rfl
  isLiteral := isLiteral_roundTo _ (isFinite_of_evaluate h)
  roundTo_eq := roundTo_roundTo _ (isFinite_of_evaluate h)

theorem Shows.input_eq (h : Shows settings s w) : s.input = text w := by
  rw [input, h.entries_eq]
  simp

theorem Shows.press_equals (h : Shows settings s w) : s.press settings .equals =
    { s with history := recent settings.historyLimit (s.history ++ [⟨text w, w⟩]) } := by
  have hvalue : evaluate s.input = .ok w := by
    rw [h.input_eq]
    exact evaluate_text h.isLiteral
  rw [press_equals_of_ok hvalue, answered, line, h.roundTo_eq, h.input_eq, ← h.entries_eq,
    ← h.justEvaluated_eq, ← h.error_eq]

/-- Each further `=` adds the answer to the history and changes nothing else. -/
theorem Shows.pressAll_replicate (h : Shows settings s w)
    (hs : recent settings.historyLimit s.history = s.history) (n : Nat) :
    s.pressAll settings (List.replicate n .equals) =
      { s with history :=
          recent settings.historyLimit (s.history ++ List.replicate n ⟨text w, w⟩) } := by
  induction n with
  | zero => simp [pressAll, hs]
  | succ n ih =>
    have hshows : Shows settings (s.pressAll settings (List.replicate n .equals)) w := by
      rw [ih]
      exact ⟨h.entries_eq, h.justEvaluated_eq, h.error_eq, h.isLiteral, h.roundTo_eq⟩
    rw [List.replicate_succ', pressAll_concat, hshows.press_equals, ih]
    simp only [recent_recent_append, List.append_assoc, List.replicate_succ']

/-- The text of a rounded double has the double as its value and rounding it again leaves it alone; and
after an `=` that succeeds any number of further ones succeed, keep the entries and add the answer to
the history as often. -/
theorem pressAll_replicate_equals (settings : Settings) {s : State}
    (h : (s.press settings .equals).error = none) (n : Nat) :
    let t := s.press settings .equals
    let u := t.pressAll settings (List.replicate n .equals)
    (∃ v, evaluate s.input = .ok v ∧ t.entries = [text (roundTo settings.places v)] ∧
      u.history = (t.history ++ List.replicate n (⟨t.input, roundTo settings.places v⟩ : Line)).rtake
        settings.historyLimit) ∧
      u.entries = t.entries ∧ u.error = none ∧ u.justEvaluated = t.justEvaluated ∧
      ∀ (places : Nat) (v : Float), isFinite v = true →
        evaluate (text (roundTo places v)) = .ok (roundTo places v) ∧
          roundTo places (roundTo places v) = roundTo places v := by
  intro t u
  obtain ⟨v, hv⟩ := error_press_equals_eq_none_iff.mp h
  have ht : t = s.answered settings v := press_equals_of_ok hv
  have hshows : Shows settings t (roundTo settings.places v) := ht ▸ shows_answered hv
  have hcut : recent settings.historyLimit t.history = t.history := by
    rw [ht]
    exact recent_recent _ _
  have hu : u = { t with history := _ } := hshows.pressAll_replicate hcut n
  refine ⟨⟨v, hv, hshows.entries_eq, ?_⟩, ?_, ?_, ?_, ?_⟩
  · rw [hu, hshows.input_eq, recent_eq_rtake]
  · rw [hu]
  · rw [hu]
    exact h
  · rw [hu]
  · intro places v hfinite
    exact ⟨evaluate_text_roundTo places hfinite, roundTo_roundTo places hfinite⟩

/-- Two lines are kept, and the answer has filled both after two further `=`. -/
theorem pressAll_replicate_equals_negative :
    let settings : Settings := { historyLimit := 2 }
    let s : State := { entries := ["-", "1", "/", "3"] }
    let t := s.press settings .equals
    let u := t.pressAll settings [.equals, .equals]
    t.error = none ∧ u.entries = ["-0.333333"] ∧
      t.history.map Line.text = ["-1/3     =   -0.333333"] ∧
      u.history.map Line.text = ["-0.333333     =   -0.333333", "-0.333333     =   -0.333333"] := by
  intro settings s t u
  have h : t.error = none := by decide +kernel
  have hentries : t.entries = ["-0.333333"] := by decide +kernel
  have hinput : t.input = "-0.333333" := by decide +kernel
  have hlines : t.history.map Line.text = ["-1/3     =   -0.333333"] := by decide +kernel
  obtain ⟨⟨v, -, hanswer, hhistory⟩, hkept, -⟩ := pressAll_replicate_equals settings h 2
  have htext : text (roundTo settings.places v) = "-0.333333" :=
    (List.cons.inj (hanswer.symm.trans hentries)).1
  have hlength : t.history.length = 1 := by decide +kernel
  have hu : u.history = List.replicate 2 ⟨t.input, roundTo settings.places v⟩ := by
    refine hhistory.trans ?_
    rw [List.rtake, List.length_append, hlength]
    exact List.drop_left' hlength
  refine ⟨h, hkept.trans hentries, hlines, ?_⟩
  rw [hu, List.map_replicate, Line.text, htext, hinput]
  rfl

end DeskCalculator.State
