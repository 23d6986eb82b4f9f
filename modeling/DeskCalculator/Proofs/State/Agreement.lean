import DeskCalculator.Proofs.State.History

/-! # Runs that differ in their history

Nothing is computed from the history. Two states that are equal but for it stay so under every key, if
their results are rounded alike, and they note the same in the journal. Until everything is cleared both
histories grow by the same lines, and each drops its oldest ones at its own limit.
-/
namespace DeskCalculator.State

structure Agrees (s s' : State) : Prop where
  entries_eq : s.entries = s'.entries
  justEvaluated_eq : s.justEvaluated = s'.justEvaluated
  error_eq : s.error = s'.error

variable {settings settings' : Settings} {s s' : State}

theorem Agrees.refl (s : State) : Agrees s s := ⟨rfl, rfl, rfl⟩

theorem Agrees.input_eq (h : Agrees s s') : s.input = s'.input := by
  rw [input, input, h.entries_eq]

theorem Agrees.edit_eq (h : Agrees s s') (key : Key) : s.edit key = s'.edit key := by
  unfold edit insert
  rw [h.entries_eq, h.justEvaluated_eq]

section places
variable (hp : settings.places = settings'.places) (h : Agrees s s')
include hp h

theorem Agrees.answer_eq : s.answer settings = s'.answer settings' := by
  rw [answer, answer, h.input_eq, hp]

theorem Agrees.newLines_eq (key : Key) : s.newLines settings key = s'.newLines settings' key := by
  unfold newLines line
  rw [h.input_eq, hp]

theorem Agrees.pressRecords_eq (key : Key) :
    s.pressRecords settings key = s'.pressRecords settings' key := by
  unfold pressRecords
  rw [h.input_eq, h.answer_eq hp]

/-- A key changes all but the history in the same way. -/
theorem Agrees.press (key : Key) : Agrees (s.press settings key) (s'.press settings' key) := by
  by_cases he : key = .equals
  · subst he
    cases hv : evaluate s.input with
    | ok v =>
      have hv' : evaluate s'.input = .ok v := h.input_eq ▸ hv
      rw [press_equals_of_ok hv, press_equals_of_ok hv', answered, answered, hp]
      exact ⟨rfl, rfl, rfl⟩
    | error e =>
      have hv' : evaluate s'.input = .error e := h.input_eq ▸ hv
      rw [press_equals_of_error hv, press_equals_of_error hv']
      exact ⟨h.entries_eq, rfl, rfl⟩
  · by_cases hc : key = .clear
    · subst hc
      exact ⟨rfl, rfl, rfl⟩
    · rw [press_of_ne he hc, press_of_ne he hc]
      exact ⟨h.edit_eq key, rfl, rfl⟩

theorem Agrees.pressAll (keys : List Key) :
    Agrees (s.pressAll settings keys) (s'.pressAll settings' keys) := by
  induction keys generalizing s s' with
  | nil => exact h
  | cons key keys ih => exact ih (h.press hp key)

theorem Agrees.recordsOf_eq (keys : List Key) :
    s.recordsOf settings keys = s'.recordsOf settings' keys := by
  induction keys generalizing s s' with
  | nil => rfl
  | cons key keys ih => rw [recordsOf, recordsOf, h.pressRecords_eq hp, ih (h.press hp key)]

theorem Agrees.answers_eq (lines : List Line) (keys : List Key) :
    answers settings s lines keys = answers settings' s' lines keys := by
  induction keys generalizing s s' lines with
  | nil => rfl
  | cons key keys ih => rw [answers, answers, h.newLines_eq hp, ih (h.press hp key)]

end places

section calculation
variable (hp : settings.places = settings'.places) (hl : settings.historyLimit = settings'.historyLimit)
include hp hl

/-- Of the settings only the places and the limit of the history matter for a state. -/
theorem press_congr (s : State) (key : Key) : s.press settings key = s.press settings' key := by
  cases key with
  | equals => simp only [press, equals, answer, hp, hl]
  | _ => rfl

theorem pressAll_congr (s : State) (keys : List Key) :
    s.pressAll settings keys = s.pressAll settings' keys := by
  have hpress : State.press settings = State.press settings' := by
    funext s key
    exact press_congr hp hl s key
  rw [pressAll, pressAll, hpress]

end calculation

/-- The history behind which new lines have come: cut to the limit, unless there are none. -/
def extended (limit : Nat) (old new : List Line) : List Line :=
  if new = [] then old else (old ++ new).rtake limit

theorem extended_nil (limit : Nat) (old : List Line) : extended limit old [] = old := if_pos rfl

theorem extended_suffix (limit : Nat) (old new : List Line) :
    extended limit old new <:+ old ++ new := by
  unfold extended
  split
  case isTrue h => rw [h, List.append_nil]
  case isFalse => exact recent_suffix _ _

theorem extended_extended (limit : Nat) (a b c : List Line) :
    extended limit (extended limit a b) c = extended limit a (b ++ c) := by
  by_cases hc : c = []
  · rw [hc, extended_nil, List.append_nil]
  · have hbc : b ++ c ≠ [] := by simp [hc]
    rw [extended, if_neg hc, extended, extended, if_neg hbc, ← List.append_assoc]
    split
    case isTrue hb => rw [hb, List.append_nil]
    case isFalse => exact recent_recent_append ..

theorem history_press_of_ne_clear (settings : Settings) (s : State) {key : Key} (h : key ≠ .clear) :
    (s.press settings key).history =
      extended settings.historyLimit s.history (s.newLines settings key) := by
  by_cases he : key = .equals
  · subst he
    cases hv : evaluate s.input with
    | ok v =>
      rw [press_equals_of_ok hv, answered, newLines, hv, extended]
      exact (if_neg (List.cons_ne_nil _ _)).symm
    | error e =>
      rw [press_equals_of_error hv, refused, newLines, hv]
      exact (extended_nil _ _).symm
  · rw [press_of_ne he h, edited, newLines_of_ne he, extended_nil]

/-- Unless everything is cleared, a run adds its answers to the history it began with. -/
theorem history_pressAll_of_clear_notMem (settings : Settings) (s : State) {keys : List Key}
    (h : .clear ∉ keys) : (s.pressAll settings keys).history =
      extended settings.historyLimit s.history (answers settings s [] keys) := by
  induction keys using List.reverseRecOn with
  | nil => exact (extended_nil _ _).symm
  | append_singleton keys key ih =>
    rw [List.mem_append, not_or, List.mem_singleton] at h
    have hkey : key ≠ .clear := Ne.symm h.2
    rw [pressAll_concat, answers_concat, if_neg hkey, history_press_of_ne_clear settings _ hkey,
      ih h.1, extended_extended]

/-- From states that are equal but for their histories, and with results rounded alike, the same keys
give states that are equal but for their histories and note the same records at every step. If nothing
is cleared, each history is the one at the start with the same answers behind it, cut to its limit. -/
theorem pressAll_of_agrees {settings settings' : Settings}
    (hp : settings.places = settings'.places) {s s' : State} (h : Agrees s s') (keys : List Key) :
    (∀ n, Agrees (s.pressAll settings (keys.take n)) (s'.pressAll settings' (keys.take n)) ∧
      s.recordsOf settings (keys.take n) = s'.recordsOf settings' (keys.take n)) ∧
    (.clear ∉ keys →
      let lines := answers settings s [] keys
      let t := s.pressAll settings keys
      let t' := s'.pressAll settings' keys
      answers settings' s' [] keys = lines ∧
        (t.history <:+ s.history ++ lines ∧
          t.history = extended settings.historyLimit s.history lines) ∧
        t'.history <:+ s'.history ++ lines ∧
          t'.history = extended settings'.historyLimit s'.history lines) := by
  constructor
  · intro n
    exact ⟨h.pressAll hp _, h.recordsOf_eq hp _⟩
  · intro hclear lines t t'
    have hlines : answers settings' s' [] keys = lines := (h.answers_eq hp [] keys).symm
    have ht : t.history = extended settings.historyLimit s.history lines :=
      history_pressAll_of_clear_notMem settings s hclear
    have ht' : t'.history = extended settings'.historyLimit s'.history lines :=
      hlines ▸ history_pressAll_of_clear_notMem settings' s' hclear
    refine ⟨hlines, ⟨?_, ht⟩, ?_, ht'⟩
    · rw [ht]
      exact extended_suffix _ _ _
    · rw [ht']
      exact extended_suffix _ _ _

theorem pressAll_of_agrees_answers :
    let settings : Settings := { historyLimit := 0 }
    let s : State := { entries := ["5"], history := [⟨"1", 1⟩], justEvaluated := true }
    let s' : State := { s with history := [⟨"2*3", 6⟩, ⟨"9", 9⟩] }
    let keys : List Key := [.operator .plus, .digit 2, .equals, .operator .divide, .digit 0, .equals]
    settings.places = ({} : Settings).places ∧ Agrees s s' ∧ .clear ∉ keys ∧
      s.recordsOf settings keys = s'.recordsOf {} keys ∧
      (s.pressAll settings keys).history = [] ∧
      (s'.pressAll {} keys).history = [⟨"2*3", 6⟩, ⟨"9", 9⟩, ⟨"5+2", 7⟩] := by
  intro settings s s' keys
  have hplaces : settings.places = ({} : Settings).places := rfl
  have hagrees : Agrees s s' := ⟨rfl, rfl, rfl⟩
  have hclear : .clear ∉ keys := by decide
  have hlines : answers settings s [] keys = [⟨"5+2", 7⟩] := by decide +kernel
  obtain ⟨hsteps, hhistory⟩ := pressAll_of_agrees hplaces hagrees keys
  obtain ⟨-, ⟨-, ht⟩, -, ht'⟩ := hhistory hclear
  rw [hlines] at ht ht'
  exact ⟨hplaces, hagrees, hclear, (hsteps keys.length).2, ht, ht'⟩

end DeskCalculator.State
