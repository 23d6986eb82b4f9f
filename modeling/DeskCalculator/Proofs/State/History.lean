import Mathlib.Data.List.DropRight
import DeskCalculator.Proofs.Expression.Stages
import DeskCalculator.Proofs.Number.Places
import DeskCalculator.Proofs.State.Press

/-! # The history is the recent answers

The history is cut to its limit at every answer, and this is the same as keeping all answers since the
last time everything was cleared and cutting once. So it ends like the list of these answers, and each
of its lines still shows the rounded value of its expression.
-/
namespace DeskCalculator.State
open Binary64

theorem recent_eq_rtake (limit : Nat) (lines : List Line) : recent limit lines = lines.rtake limit := rfl

theorem recent_suffix (limit : Nat) (lines : List Line) : recent limit lines <:+ lines :=
  List.drop_suffix _ _

theorem length_recent (limit : Nat) (lines : List Line) :
    (recent limit lines).length = min limit lines.length := by
  rw [recent, List.length_drop]
  omega

theorem recent_nil (limit : Nat) : recent limit [] = [] := List.drop_nil

/-- Cutting before more lines come makes no difference. -/
theorem recent_recent_append (limit : Nat) (a b : List Line) :
    recent limit (recent limit a ++ b) = recent limit (a ++ b) := by
  have hk : a.length - limit ≤ a.length := Nat.sub_le _ _
  unfold recent
  rw [← List.drop_append_of_le_length hk, List.drop_drop]
  congr 1
  simp only [List.length_drop, List.length_append]
  omega

theorem recent_recent (limit : Nat) (lines : List Line) :
    recent limit (recent limit lines) = recent limit lines := by
  have := recent_recent_append limit lines []
  rwa [List.append_nil, List.append_nil] at this

/-- The last line is never cut when the history may have a line at all. -/
theorem getLast?_recent_concat {limit : Nat} (h : 1 ≤ limit) (lines : List Line) (l : Line) :
    (recent limit (lines ++ [l])).getLast? = some l := by
  have hk : (lines ++ [l]).length - limit ≤ lines.length := by
    rw [List.length_append, List.length_singleton]
    omega
  rw [recent, List.drop_append_of_le_length hk, List.getLast?_concat]

variable (settings : Settings)

def newLines (s : State) : Key → List Line
  | .equals =>
    match evaluate s.input with
    | .ok v => [s.line settings v]
    | .error _ => []
  | _ => []

/-- The lines of all answers since everything was cleared, behind the `lines` from before. -/
def answers (s : State) (lines : List Line) : List Key → List Line
  | [] => lines
  | key :: keys =>
    answers (s.press settings key) (if key = .clear then [] else lines ++ s.newLines settings key) keys

theorem answers_append (s : State) (lines : List Line) (a b : List Key) :
    answers settings s lines (a ++ b) =
      answers settings (s.pressAll settings a) (answers settings s lines a) b := by
  induction a generalizing s lines with
  | nil => rfl
  | cons key a ih => exact ih _ _

theorem answers_concat (s : State) (lines : List Line) (keys : List Key) (key : Key) :
    answers settings s lines (keys ++ [key]) = if key = .clear then []
      else answers settings s lines keys ++ (s.pressAll settings keys).newLines settings key :=
  answers_append ..

variable {settings} {s t : State} {key : Key}

theorem newLines_of_ne (h : key ≠ .equals) : s.newLines settings key = [] := by
  cases key with
  | equals => exact absurd rfl h
  | _ => rfl

/-- A step cuts the history with what the key adds to it. -/
theorem history_of_step (h : Step settings s key t) {lines : List Line}
    (hs : s.history = recent settings.historyLimit lines) :
    t.history = recent settings.historyLimit
      (if key = .clear then [] else lines ++ s.newLines settings key) := by
  cases h with
  | answer h =>
    rw [if_neg nofun, newLines, h, answered, hs]
    exact recent_recent_append ..
  | refusal h =>
    rw [if_neg nofun, newLines, h, List.append_nil]
    exact hs
  | clear => exact (recent_nil _).symm
  | edit he hc =>
    rw [if_neg hc, newLines_of_ne he, List.append_nil]
    exact hs

theorem history_pressAll (keys : List Key) : (pressAll settings {} keys).history =
    recent settings.historyLimit (answers settings {} [] keys) := by
  refine pressAll_induction (P := fun keys s =>
    s.history = recent settings.historyLimit (answers settings {} [] keys)) ?_ ?_ keys
  · exact (recent_nil _).symm
  · intro keys key t hs ht
    rw [answers_concat]
    exact history_of_step ht hs

/-- What holds of all lines before a step, and of the line of an answer, holds of all lines after it. -/
theorem forall_mem_history_of_step {P : Line → Prop} (h : Step settings s key t)
    (hs : ∀ l ∈ s.history, P l)
    (hline : ∀ v, evaluate s.input = .ok v → P (s.line settings v)) : ∀ l ∈ t.history, P l := by
  cases h with
  | answer h =>
    intro l hl
    rcases List.mem_append.mp ((recent_suffix _ _).subset hl) with hl | hl
    · exact hs l hl
    · obtain rfl := List.mem_singleton.mp hl
      exact hline _ h
  | refusal h => exact hs
  | clear => nofun
  | edit he hc => exact hs

def Holds (settings : Settings) (l : Line) : Prop :=
  ∃ v, evaluate l.expression = .ok v ∧ roundTo settings.places v = l.result ∧ IsLiteral l.result

theorem holds_line {v : Float} (h : evaluate s.input = .ok v) : Holds settings (s.line settings v) :=
  ⟨v, h, rfl, isLiteral_roundTo _ (isFinite_of_evaluate h)⟩

theorem holds_of_step (h : Step settings s key t) (hs : ∀ l ∈ s.history, Holds settings l) :
    ∀ l ∈ t.history, Holds settings l :=
  forall_mem_history_of_step h hs fun _ hv => holds_line hv

theorem holds_of_mem_history (keys : List Key) :
    ∀ l ∈ (pressAll settings {} keys).history, Holds settings l := by
  refine pressAll_induction (P := fun _ s => ∀ l ∈ s.history, Holds settings l) nofun ?_ keys
  intro keys key t hs ht
  exact holds_of_step ht hs

/-- After any keys the history is the last answers since everything was cleared, as many as it may
have; no key but a successful `=` and `AC` changes it, and its lines hold. -/
theorem history_suffix_answers (settings : Settings) (keys : List Key) :
    let s := pressAll settings {} keys
    let lines := answers settings {} [] keys
    (s.history <:+ lines ∧ s.history.length = min settings.historyLimit lines.length) ∧
      (∀ key, key ≠ .equals → key ≠ .clear → (s.press settings key).history = s.history) ∧
      ((s.press settings .equals).error ≠ none →
        (s.press settings .equals).history = s.history) ∧
      ∀ l ∈ s.history, ∃ v, evaluate l.expression = .ok v ∧
        roundTo settings.places v = l.result ∧ IsLiteral l.result := by
  intro s lines
  have hhistory : s.history = recent settings.historyLimit lines := history_pressAll keys
  refine ⟨⟨?_, ?_⟩, ?_, ?_, holds_of_mem_history keys⟩
  · rw [hhistory]
    exact recent_suffix _ _
  · rw [hhistory, length_recent]
  · intro key he hc
    rw [press_of_ne he hc]
    rfl
  · intro h
    exact (press_equals_of_error_ne_none h).2

end DeskCalculator.State
