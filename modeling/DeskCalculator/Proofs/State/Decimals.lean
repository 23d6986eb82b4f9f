import DeskCalculator.Proofs.Number.ShortestPlaces
import DeskCalculator.Proofs.Settings.Bounds
import DeskCalculator.Proofs.State.History

/-! # No answer shows more decimals than asked

An answer is the text of a rounded double, and so is the last part of each line of the history. Settings in
their bounds ask for few enough places, so that neither shows more of them.
-/
namespace DeskCalculator.State
open Binary64 Decimal Settings

/-- The states to which keys lead from the start, each under settings of the given kind. -/
inductive ReachableUnder (P : Settings → Prop) : State → Prop
  | start : ReachableUnder P {}
  | press {s : State} (h : ReachableUnder P s) {settings : Settings} (hP : P settings) (key : Key) :
      ReachableUnder P (s.press settings key)

theorem reachableUnder_pressAll {P : Settings → Prop} {settings : Settings} (hP : P settings)
    (keys : List Key) : ReachableUnder P (pressAll settings {} keys) := by
  induction keys using List.reverseRecOn with
  | nil => exact .start
  | append_singleton keys key ih =>
    rw [pressAll_concat]
    exact ih.press hP key

variable {settings : Settings} {s t : State} {key : Key} {places : Nat}

theorem atMostPlaces_text_roundTo (hplaces : places ≤ maxPlaces) {v : Float}
    (h : isFinite v = true) : AtMostPlaces places (text (roundTo places v)).toList := by
  rw [text, String.toList_ofList]
  exact atMostPlaces_chars_roundTo hplaces h

/-- A step keeps the decimals of the history within places that its settings do not exceed. -/
theorem atMostPlaces_of_step (hmade : Made settings) (hplaces : settings.places ≤ places)
    (h : Step settings s key t)
    (hs : ∀ l ∈ s.history, AtMostPlaces places (text l.result).toList) :
    ∀ l ∈ t.history, AtMostPlaces places (text l.result).toList := by
  refine forall_mem_history_of_step h hs fun v hv => ?_
  exact (atMostPlaces_text_roundTo hmade.places_le (isFinite_of_evaluate hv)).mono hplaces

theorem atMostPlaces_of_reachable
    (h : ReachableUnder (fun settings => Made settings ∧ settings.places ≤ places) s) :
    ∀ l ∈ s.history, AtMostPlaces places (text l.result).toList := by
  induction h with
  | start => nofun
  | press _ hP key ih => exact atMostPlaces_of_step hP.1 hP.2 (step_press _ _ key) ih

/-- A finite double that is rounded to places within bounds shows no more decimals than that. So does the
answer to a successful `=` under settings that ask for them, after any keys, and so do the results in a
history that was made under settings that ask for no more. -/
theorem answers_show_at_most_places
    (h : ReachableUnder (fun settings => Made settings ∧ settings.places ≤ places) s) :
    (∀ p v, p ≤ maxPlaces → isFinite v = true → AtMostPlaces p (text (roundTo p v)).toList) ∧
      (∀ settings, Made settings → (s.press settings .equals).error = none →
        ∃ answer, (s.press settings .equals).entries = [answer] ∧
          AtMostPlaces settings.places answer.toList) ∧
      ∀ l ∈ s.history, l.text = l.expression ++ "     =   " ++ text l.result ∧
        AtMostPlaces places (text l.result).toList := by
  refine ⟨fun p v hp hv => atMostPlaces_text_roundTo hp hv, ?_, ?_⟩
  · intro settings hmade hnone
    obtain ⟨v, hv⟩ := error_press_equals_eq_none_iff.mp hnone
    refine ⟨text (roundTo settings.places v), ?_, ?_⟩
    · rw [press_equals_of_ok hv]
      rfl
    · exact atMostPlaces_text_roundTo hmade.places_le (isFinite_of_evaluate hv)
  · intro l hl
    exact ⟨rfl, atMostPlaces_of_reachable h l hl⟩

/-- Forty places become seventeen, and a third shows sixteen of them. -/
theorem answers_show_at_most_places_third :
    let settings := (ofVariables .standard fun _ => none).setPlaces 40
    let s := pressAll settings {} [.digit 1, .operator .divide, .digit 3, .equals]
    ReachableUnder (fun settings => Made settings ∧ settings.places ≤ 17) s ∧
      ∃ l ∈ s.history, l.text = "1/3     =   0.3333333333333333" ∧
        AtMostPlaces 17 (text l.result).toList := by
  intro settings s
  have hsettings : Made settings ∧ settings.places ≤ 17 :=
    ⟨.setPlaces (.read _ _) 40, by decide +kernel⟩
  have hreach := reachableUnder_pressAll (P := fun settings => Made settings ∧ settings.places ≤ 17)
    hsettings [.digit 1, .operator .divide, .digit 3, .equals]
  obtain ⟨l, hl, htext⟩ : ∃ l ∈ s.history, l.text = "1/3     =   0.3333333333333333" := by
    decide +kernel
  exact ⟨hreach, l, hl, htext, ((answers_show_at_most_places hreach).2.2 l hl).2⟩

end DeskCalculator.State
