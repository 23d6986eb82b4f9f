import Mathlib.Data.List.Induction
import DeskCalculator.State

/-! # What a key does

A key press is one of four steps: an answer, a refusal, clearing everything or editing the entries.
What these steps preserve holds after every series of keys, and the series may be part of it.
-/
namespace DeskCalculator.State

section step
variable (settings : Settings) (s : State)

def line (v : Float) : Line := ⟨s.input, Binary64.roundTo settings.places v⟩

def answered (v : Float) : State where
  entries := [Binary64.text (Binary64.roundTo settings.places v)]
  history := recent settings.historyLimit (s.history ++ [s.line settings v])
  justEvaluated := true
  error := none

def refused : State := { s with justEvaluated := true, error := some errorText }

/-- The entries after a key that neither evaluates nor clears. -/
def edit : Key → List String
  | .delete => s.entries.dropLast
  | key =>
    match key.text with
    | some text => s.insert key text
    | none => s.entries

def edited (key : Key) : State :=
  { s with entries := s.edit key, justEvaluated := false, error := none }

inductive Step : Key → State → Prop
  | answer {v : Float} (h : evaluate s.input = .ok v) : Step .equals (s.answered settings v)
  | refusal {e : EvalError} (h : evaluate s.input = .error e) : Step .equals s.refused
  | clear : Step .clear {}
  | edit {key : Key} (he : key ≠ .equals) (hc : key ≠ .clear) : Step key (s.edited key)

variable {settings s}

theorem press_equals_of_ok {v : Float} (h : evaluate s.input = .ok v) :
    s.press settings .equals = s.answered settings v := by
  rw [press, equals, answer, h]
  rfl

theorem press_equals_of_error {e : EvalError} (h : evaluate s.input = .error e) :
    s.press settings .equals = s.refused := by
  rw [press, equals, answer, h]
  rfl

theorem press_of_ne {key : Key} (he : key ≠ .equals) (hc : key ≠ .clear) :
    s.press settings key = s.edited key := by
  cases key with
  | equals => exact absurd rfl he
  | clear => exact absurd rfl hc
  | _ => rfl

variable (settings s) in
/-- Every key press is one of the steps. -/
theorem step_press (key : Key) : Step settings s key (s.press settings key) := by
  by_cases he : key = .equals
  · subst he
    cases h : evaluate s.input with
    | ok v =>
      rw [press_equals_of_ok h]
      exact .answer h
    | error e =>
      rw [press_equals_of_error h]
      exact .refusal h
  · by_cases hc : key = .clear
    · subst hc
      exact .clear
    · rw [press_of_ne he hc]
      exact .edit he hc

theorem error_press_equals_eq_none_iff :
    (s.press settings .equals).error = none ↔ ∃ v, evaluate s.input = .ok v := by
  cases h : evaluate s.input with
  | ok v => simp [press_equals_of_ok h, answered]
  | error e => simp [press_equals_of_error h, refused]

theorem error_press_equals_ne_none_iff :
    (s.press settings .equals).error ≠ none ↔ ∃ e, evaluate s.input = .error e := by
  cases h : evaluate s.input with
  | ok v => simp [press_equals_of_ok h, answered]
  | error e => simp [press_equals_of_error h, refused]

/-- A refusal leaves the entries and the history as they are. -/
theorem press_equals_of_error_ne_none (h : (s.press settings .equals).error ≠ none) :
    (s.press settings .equals).entries = s.entries ∧
      (s.press settings .equals).history = s.history := by
  obtain ⟨e, he⟩ := error_press_equals_ne_none_iff.mp h
  rw [press_equals_of_error he]
  exact ⟨rfl, rfl⟩

theorem mem_insert {key : Key} {text x : String} (h : x ∈ s.insert key text) :
    x ∈ s.entries ∨ x = text ∨ x = "(" := by
  dsimp only [insert] at h
  generalize hkept : (if s.justEvaluated && key.isDigit then [] else s.entries) = kept at h
  have hsubset : x ∈ kept → x ∈ s.entries := by
    rw [← hkept]
    split
    · nofun
    · exact id
  split at h
  · rcases List.mem_append.mp h with h | h
    · exact .inl (hsubset h)
    · exact .inr (.inl (List.mem_singleton.mp h))
  · split at h
    · simp only [List.mem_cons] at h
      rcases h with h | h | h
      · exact .inr (.inl h)
      · exact .inr (.inr h)
      · exact .inl (hsubset h)
    · rcases List.mem_append.mp h with h | h
      · exact .inl (hsubset h)
      · exact .inr (by simpa using h)

/-- An entry after a key was there before or is the text of a key. -/
theorem mem_edit {key : Key} {x : String} (h : x ∈ s.edit key) :
    x ∈ s.entries ∨ ∃ k : Key, k.text = some x := by
  unfold edit at h
  split at h
  · exact .inl ((List.dropLast_prefix _).subset h)
  · split at h
    case h_1 text htext =>
      rcases mem_insert h with h | rfl | rfl
      · exact .inl h
      · exact .inr ⟨key, htext⟩
      · exact .inr ⟨.opening, rfl⟩
    case h_2 => exact .inl h

end step

theorem pressAll_concat (settings : Settings) (s : State) (keys : List Key) (key : Key) :
    s.pressAll settings (keys ++ [key]) = (s.pressAll settings keys).press settings key :=
  pressAll_append ..

/-- What holds at the start and is kept by every step holds after all keys. -/
theorem pressAll_induction {settings : Settings} {P : List Key → State → Prop} (start : P [] {})
    (step : ∀ keys key t, P keys (pressAll settings {} keys) →
      Step settings (pressAll settings {} keys) key t → P (keys ++ [key]) t) (keys : List Key) :
    P keys (pressAll settings {} keys) := by
  induction keys using List.reverseRecOn with
  | nil => exact start
  | append_singleton keys key ih =>
    rw [pressAll_concat]
    exact step keys key _ ih (step_press settings _ key)

/-- The states to which keys lead from the start, each under whatever settings. -/
inductive Reachable : State → Prop
  | start : Reachable {}
  | press {s : State} (h : Reachable s) (settings : Settings) (key : Key) :
      Reachable (s.press settings key)

theorem reachable_pressAll (settings : Settings) (keys : List Key) :
    Reachable (pressAll settings {} keys) := by
  induction keys using List.reverseRecOn with
  | nil => exact .start
  | append_singleton keys key ih =>
    rw [pressAll_concat]
    exact ih.press settings key

end DeskCalculator.State
