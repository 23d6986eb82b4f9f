import DeskCalculator.Proofs.State.History

/-! # The fields of a state agree

After any keys the flag says whether the last one was `=`, an error stands only where the input has no
value, and after an answer the input is the result in the last line of the history. Each key settles
this anew, whatever the state was before.
-/
namespace DeskCalculator.State

structure Consistent (keys : List Key) (s : State) : Prop where
  error_eq : s.error = none ∨ s.error = some errorText
  justEvaluated_iff : s.justEvaluated = true ↔ keys.getLast? = some .equals
  of_error : s.error ≠ none → s.justEvaluated = true ∧ ∃ e, evaluate s.input = .error e
  of_answer : s.justEvaluated = true → s.error = none →
    ∃ l, s.history.getLast? = some l ∧ s.entries = [Binary64.text l.result]

variable {settings : Settings} {s t : State} {keys : List Key} {key : Key}

theorem consistent_of_step (hlimit : 1 ≤ settings.historyLimit) (h : Step settings s key t) :
    Consistent (keys ++ [key]) t := by
  cases h with
  | answer h =>
    exact {
      error_eq := .inl rfl
      justEvaluated_iff := by simp [answered]
      of_error := fun hne => absurd rfl hne
      of_answer := fun _ _ => ⟨_, getLast?_recent_concat hlimit _ _, rfl⟩ }
  | refusal h =>
    exact {
      error_eq := .inr rfl
      justEvaluated_iff := by simp [refused]
      of_error := fun _ => ⟨rfl, _, h⟩
      of_answer := fun _ hnone => absurd hnone (Option.some_ne_none _) }
  | clear =>
    exact {
      error_eq := .inl rfl
      justEvaluated_iff := by simp
      of_error := fun hne => absurd rfl hne
      of_answer := fun hflag => absurd hflag Bool.false_ne_true }
  | edit he hc =>
    exact {
      error_eq := .inl rfl
      justEvaluated_iff := by simp [edited, he]
      of_error := fun hne => absurd rfl hne
      of_answer := fun hflag => absurd hflag Bool.false_ne_true }

theorem consistent_start : Consistent [] {} where
  error_eq := .inl rfl
  justEvaluated_iff := by simp
  of_error := fun hne => absurd rfl hne
  of_answer := fun hflag => absurd hflag Bool.false_ne_true

/-- If the history may have a line, the fields agree after any keys; and an `=` that fails leaves the
entries and the history as they are. -/
theorem consistent_pressAll {settings : Settings} (h : 1 ≤ settings.historyLimit)
    (keys : List Key) :
    let s := pressAll settings {} keys
    Consistent keys s ∧ ((s.press settings .equals).error ≠ none →
      (s.press settings .equals).entries = s.entries ∧
        (s.press settings .equals).history = s.history) := by
  intro s
  refine ⟨?_, press_equals_of_error_ne_none⟩
  refine pressAll_induction (P := Consistent) consistent_start ?_ keys
  intro keys key t _ ht
  exact consistent_of_step h ht

theorem consistent_pressAll_refusal :
    let settings : Settings := { historyLimit := 1 }
    let keys := [.digit 7, .equals, .operator .divide, .digit 0, .digit 12, .equals]
    1 ≤ settings.historyLimit ∧ Consistent keys (pressAll settings {} keys) ∧
      (pressAll settings {} keys).error = some errorText := by
  intro settings keys
  have hlimit : 1 ≤ settings.historyLimit := by decide
  exact ⟨hlimit, (consistent_pressAll hlimit keys).1, by decide +kernel⟩

end DeskCalculator.State
