import DeskCalculator.Proofs.State.Entries
import DeskCalculator.Window

/-! # What the window tells

The texts in the window determine the input, the error and every line of the history. Inputs are spelled
without blanks and capitals, so none of them is the text of an error, and the expression of a line ends
at its first blank; and the text of an answer reads as the answer.
-/
namespace DeskCalculator

namespace Token

theorem Spelled.ne_errorText {x : String} (h : Spelled x.toList) : x ≠ State.errorText := by
  rintro rfl
  have hc : 'M' ∈ State.errorText.toList := by decide +kernel
  exact absurd (h.isNumeral_or_mem hc) (by decide)

end Token

open Binary64 Token

namespace Line

structure Readable (l : Line) : Prop where
  spelled : Spelled l.expression.toList
  isLiteral : IsLiteral l.result

/-- The expression is what stands before the first blank. -/
theorem Readable.takeWhile_text {l : Line} (h : l.Readable) :
    l.text.toList.takeWhile (· != ' ') = l.expression.toList := by
  have hkept : ∀ c ∈ l.expression.toList, (c != ' ') = true := by
    intro c hc
    refine bne_iff_ne.mpr ?_
    rintro rfl
    exact h.spelled.blank_notMem hc
  have hblank : ∃ cs, "     =   ".toList = ' ' :: cs := ⟨_, rfl⟩
  obtain ⟨cs, hcs⟩ := hblank
  rw [text, String.toList_append, String.toList_append, hcs, List.append_assoc, List.cons_append,
    List.takeWhile_append_of_pos hkept, List.takeWhile_cons_of_neg (by simp), List.append_nil]

theorem Readable.eq_of_text_eq {l l' : Line} (h : l.Readable) (h' : l'.Readable)
    (htext : l.text = l'.text) : l = l' := by
  have hexpression : l.expression = l'.expression := by
    apply String.toList_inj.mp
    rw [← h.takeWhile_text, htext, h'.takeWhile_text]
  have hresult : l.result = l'.result := by
    refine Token.eq_of_text_eq h.isLiteral h'.isLiteral ?_
    rw [text, text, hexpression] at htext
    apply String.toList_inj.mp
    have hchars := congrArg String.toList htext
    simp only [String.toList_append] at hchars
    exact List.append_cancel_left hchars
  cases l
  cases l'
  congr

theorem eq_of_map_text_eq {ls ls' : List Line} (h : ∀ l ∈ ls, l.Readable)
    (h' : ∀ l ∈ ls', l.Readable) (htexts : ls.map text = ls'.map text) : ls = ls' := by
  induction ls generalizing ls' with
  | nil => exact (List.map_eq_nil_iff.mp htexts.symm).symm
  | cons l ls ih =>
    cases ls' with
    | nil => cases htexts
    | cons l' ls' =>
      obtain ⟨hl, hls⟩ := List.forall_mem_cons.mp h
      obtain ⟨hl', hls'⟩ := List.forall_mem_cons.mp h'
      obtain ⟨htext, htexts⟩ := List.cons.inj htexts
      rw [hl.eq_of_text_eq hl' htext, ih hls hls' htexts]

end Line

namespace State

variable {settings : Settings} {s t : State} {key : Key}

structure Readable (s : State) : Prop where
  isEntry : ∀ x ∈ s.entries, IsEntry x
  readable : ∀ l ∈ s.history, l.Readable
  error_eq : s.error = none ∨ s.error = some errorText

theorem error_eq_of_step (h : Step settings s key t) :
    t.error = none ∨ t.error = some errorText := by
  cases h with
  | refusal h => exact .inr rfl
  | _ => exact .inl rfl

theorem readable_of_step (h : Step settings s key t) (hs : Readable s) : Readable t where
  isEntry := isEntry_of_step h hs.isEntry
  readable := forall_mem_history_of_step h hs.readable fun _ hv =>
    ⟨spelled_input hs.isEntry, isLiteral_roundTo _ (isFinite_of_evaluate hv)⟩
  error_eq := error_eq_of_step h

theorem Reachable.readable (h : Reachable s) : Readable s := by
  induction h with
  | start => exact ⟨nofun, nofun, .inl rfl⟩
  | press _ settings key ih => exact readable_of_step (step_press settings _ key) ih

end State

namespace Window
open State

variable {s s' : State}

variable (s s') in
/-- The title and the labels of the pad are always the same. -/
theorem texts_eq_iff_append : texts s = texts s' ↔
    s.history.map Line.text ++ [s.input] ++ s.error.toList =
      s'.history.map Line.text ++ [s'.input] ++ s'.error.toList := by
  unfold texts
  simp only [List.cons_append, List.cons.injEq, true_and, List.append_left_inj]

/-- An input is not the text of an error, so a list that ends in an input does not end in an error. -/
theorem append_errorText_ne (hs : Reachable s) (shown lines : List String) :
    shown ++ [errorText] ≠ lines ++ [s.input] := by
  intro h
  obtain ⟨-, hinput⟩ := List.append_inj' h rfl
  have hspelled : Spelled s.input.toList := spelled_input hs.readable.isEntry
  exact hspelled.ne_errorText (List.singleton_inj.mp hinput).symm

theorem error_eq_of_append_eq (hs : Reachable s) (hs' : Reachable s') {lines lines' : List String}
    (h : lines ++ [s.input] ++ s.error.toList = lines' ++ [s'.input] ++ s'.error.toList) :
    s.error = s'.error := by
  rcases hs.readable.error_eq with he | he <;> rcases hs'.readable.error_eq with he' | he' <;>
    rw [he, he'] at h ⊢
  · rw [Option.toList_none, List.append_nil] at h
    exact absurd h.symm (append_errorText_ne hs _ _)
  · rw [Option.toList_none, List.append_nil] at h
    exact absurd h (append_errorText_ne hs' _ _)

/-- Of two states to which keys lead, the windows show the same texts if and only if the inputs, the
errors and the histories are the same. And a line of history is told from any other by its text. -/
theorem texts_eq_iff {s s' : State} (hs : Reachable s) (hs' : Reachable s') :
    (texts s = texts s' ↔ s.input = s'.input ∧ s.error = s'.error ∧ s.history = s'.history) ∧
      ∀ l ∈ s.history, ∀ l' ∈ s'.history,
        l.text = l'.text → l.expression = l'.expression ∧ l.result = l'.result := by
  have hr := hs.readable
  have hr' := hs'.readable
  refine ⟨⟨?_, ?_⟩, ?_⟩
  · intro htexts
    have hshown := (texts_eq_iff_append s s').mp htexts
    have herror : s.error = s'.error := error_eq_of_append_eq hs hs' hshown
    rw [herror, List.append_left_inj] at hshown
    obtain ⟨hlines, hinput⟩ := List.append_inj' hshown rfl
    have hhistory : s.history = s'.history :=
      Line.eq_of_map_text_eq hr.readable hr'.readable hlines
    exact ⟨List.singleton_inj.mp hinput, herror, hhistory⟩
  · rintro ⟨hinput, herror, hhistory⟩
    rw [texts, texts, hinput, herror, hhistory]
  · intro l hl l' hl' htext
    obtain rfl := (hr.readable l hl).eq_of_text_eq (hr'.readable l' hl') htext
    exact ⟨rfl, rfl⟩

/-- After `1/4=` and `/0=`, under different settings and by way of a digit that was deleted. -/
theorem texts_eq_iff_refusal_after_answer :
    let s := pressAll { places := 2 } {}
      [.digit 1, .operator .divide, .digit 4, .equals, .operator .divide, .digit 0, .equals]
    let s' := pressAll { places := 6, historyLimit := 1 } {}
      [.digit 1, .operator .divide, .digit 4, .digit 9, .delete, .equals, .operator .divide,
        .digit 0, .equals]
    Reachable s ∧ Reachable s' ∧ texts s = texts s' ∧ s.error = some errorText ∧
      s.history ≠ [] ∧ s.input = s'.input ∧ s.error = s'.error ∧ s.history = s'.history := by
  intro s s'
  have hs : Reachable s := reachable_pressAll _ _
  have hs' : Reachable s' := reachable_pressAll _ _
  have htexts : texts s = texts s' := by decide +kernel
  exact ⟨hs, hs', htexts, by decide +kernel, by decide +kernel, (texts_eq_iff hs hs').1.mp htexts⟩

end Window
end DeskCalculator
