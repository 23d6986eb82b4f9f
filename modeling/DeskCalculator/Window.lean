import DeskCalculator.State

/-!
# The window

What is done to the window gives keys, and what it shows follows from the state. Typed characters,
three keys of the keyboard and clicks on the pad count; everything else is ignored.
-/
namespace DeskCalculator

inductive Stroke
  | enter
  | backspace
  | escape
  | other
deriving DecidableEq

inductive Event
  | typed (text : String)
  | stroke (key : Stroke) (down : Bool)
  | pasted (text : String)
deriving DecidableEq

def Event.keys : Event → List Key
  | typed text => text.toList.filterMap Key.ofChar?
  | stroke .enter true => [.equals]
  | stroke .backspace true => [.delete]
  | stroke .escape true => [.clear]
  | stroke _ _ | pasted _ => []

/-- What happens between two drawings of the window. Keys of the keyboard are read before the pad is drawn, so a
click that the toolkit itself makes of Enter or Space, for a button that has the focus, is a frame of its own
behind that of the events. -/
inductive Frame
  | events (es : List Event)
  | click (key : Key)
  | secondaryClick (key : Key)
deriving DecidableEq

def Frame.keys : Frame → List Key
  | events es => es.flatMap Event.keys
  | click key => [key]
  | secondaryClick _ => []

namespace Window

def title : String := "Calculatrice infixe"

/-- What a window is opened with; sizes are width and height. -/
structure Options where
  title : String
  size : Nat × Nat
  minSize : Nat × Nat

def options : Options := ⟨title, (420, 640), (360, 520)⟩

def texts (s : State) : List String :=
  title :: s.history.map Line.text ++ [s.input] ++ s.error.toList ++ Key.pad.flatten.map Key.label

variable (settings : Settings)

def afterFrame (s : State) (f : Frame) : State := s.pressAll settings f.keys

def states (s : State) : List Frame → List State
  | [] => []
  | f :: fs => afterFrame settings s f :: states (afterFrame settings s f) fs

def records (s : State) (fs : List Frame) : List Record :=
  s.recordsOf settings (fs.flatMap Frame.keys)

end Window
end DeskCalculator
