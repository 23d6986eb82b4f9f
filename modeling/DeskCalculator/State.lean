import DeskCalculator.Evaluation
import DeskCalculator.Key
import DeskCalculator.Number.Places
import DeskCalculator.Settings

/-!
# The calculator, key by key

The state holds the input, the history of results and the error shown. `press` gives the state after
a key; all evaluation happens at `=`, whose answer then is the input for what follows.
-/
namespace DeskCalculator

structure Line where
  expression : String
  result : Float
deriving DecidableEq

def Line.text (l : Line) : String := l.expression ++ "     =   " ++ Binary64.text l.result

structure State where
  /-- One entry per key pressed, or the last answer. -/
  entries : List String := []
  /-- Oldest line first. -/
  history : List Line := []
  justEvaluated : Bool := false
  error : Option String := none
deriving DecidableEq

namespace State

def errorText : String := "Malformed expression"

def input (s : State) : String := String.join s.entries

def insert (key : Key) (text : String) (s : State) : List String :=
  let entries := if s.justEvaluated && key.isDigit then [] else s.entries
  if !key.isFunction then entries ++ [text]
  else if s.justEvaluated then text :: "(" :: entries
  else entries ++ [text, "("]

/-- The last `limit` lines. -/
def recent (limit : Nat) (lines : List Line) : List Line := lines.drop (lines.length - limit)

def answer (settings : Settings) (s : State) : Except EvalError Float :=
  (evaluate s.input).map (Binary64.roundTo settings.places)

def equals (settings : Settings) (s : State) : State :=
  match s.answer settings with
  | .ok v =>
    { entries := [Binary64.text v]
      history := recent settings.historyLimit (s.history ++ [⟨s.input, v⟩])
      justEvaluated := true
      error := none }
  | .error _ => { s with justEvaluated := true, error := some errorText }

def press (settings : Settings) (s : State) : Key → State
  | .equals => s.equals settings
  | .clear => {}
  | .delete => { s with entries := s.entries.dropLast, justEvaluated := false, error := none }
  | key =>
    let entries := match key.text with
      | some text => s.insert key text
      | none => s.entries
    { s with entries := entries, justEvaluated := false, error := none }

/-- What a key press notes in the journal: nothing but for `=`. -/
def pressRecords (settings : Settings) (s : State) : Key → List Record
  | .equals =>
    evaluationRecords s.input ++
      match s.answer settings with
      | .ok v => [⟨.info, s.input ++ " = " ++ Binary64.text v⟩]
      | .error e =>
        [⟨.warn, "expression refusée " ++ Text.quoted s.input ++ ": " ++ e.message⟩]
  | _ => []

def pressAll (settings : Settings) (s : State) (keys : List Key) : State :=
  keys.foldl (press settings) s

def recordsOf (settings : Settings) (s : State) : List Key → List Record
  | [] => []
  | key :: keys => s.pressRecords settings key ++ recordsOf settings (s.press settings key) keys

theorem pressAll_append (settings : Settings) (s : State) (a b : List Key) :
    s.pressAll settings (a ++ b) = (s.pressAll settings a).pressAll settings b :=
  List.foldl_append ..

theorem recordsOf_append (settings : Settings) (s : State) (a b : List Key) :
    s.recordsOf settings (a ++ b) =
      s.recordsOf settings a ++ (s.pressAll settings a).recordsOf settings b := by
  induction a generalizing s with
  | nil => rfl
  | cons k a ih => simp [recordsOf, pressAll, ih]

end State
end DeskCalculator
