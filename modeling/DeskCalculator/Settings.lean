import DeskCalculator.Journal
import DeskCalculator.Text.Blank
import DeskCalculator.Text.Quoted

/-!
# Settings

How results are rounded, how many history lines are kept and what is logged where. Settings start
from the defaults; variables replace one field each when they can be read, and are kept in bounds.
-/
namespace DeskCalculator

structure Settings where
  /-- Decimal places of a result. -/
  places : Nat := 6
  historyLimit : Nat := 100
  threshold : Threshold := some .info
  logFile : Option String := none
deriving DecidableEq

namespace Settings

def maxPlaces : Nat := 17

def maxHistory : Nat := 10000

def setPlaces (n : Nat) (s : Settings) : Settings := { s with places := min n maxPlaces }

/-- At least one line is kept, so that every result leaves a trace. -/
def setHistoryLimit (n : Nat) (s : Settings) : Settings :=
  { s with historyLimit := max 1 (min n maxHistory) }

/-- Digits after at most one plus sign, of a value below `2 ^ 64`. -/
def readCount (s : String) : Option Nat :=
  let digits := match (Text.trim s).toList with
    | '+' :: cs => cs
    | cs => cs
  let n := Nat.ofDigitChars 10 digits 0
  if digits ≠ [] ∧ digits.all Char.isDigit ∧ n < 18446744073709551616 then some n else none

def readThreshold (filter : LevelFilter) (s : String) : Option Threshold := filter.read (Text.trim s)

def readPath (s : String) : Option String :=
  let path := Text.trim s
  if path.isEmpty then none else some path

def placesVariable : String := "CALC_DECIMALES"
def historyVariable : String := "CALC_HISTORIQUE_MAX"
def levelVariable : String := "CALC_LOG"
def fileVariable : String := "CALC_LOG_FICHIER"

def variableNames : List String := [placesVariable, historyVariable, levelVariable, fileVariable]

variable (filter : LevelFilter) (env : String → Option String)

def ofVariables : Settings :=
  let s : Settings := {}
  let s := ((env placesVariable).bind readCount).elim s fun n => s.setPlaces n
  let s := ((env historyVariable).bind readCount).elim s fun n => s.setHistoryLimit n
  let s := ((env levelVariable).bind (readThreshold filter)).elim s fun t => { s with threshold := t }
  { s with logFile := (env fileVariable).bind readPath }

def warning {α : Type} (name wanted : String) (read : String → Option α) : List Record :=
  match env name with
  | some raw =>
    if (read raw).isSome then []
    else [⟨.warn, name ++ "=" ++ Text.quoted raw ++ " ignoré (" ++ wanted ++ ")"⟩]
  | none => []

def warnings : List Record :=
  warning env placesVariable "entier attendu" readCount ++
  warning env historyVariable "entier attendu" readCount ++
  warning env levelVariable "off/error/warn/info/debug/trace" (readThreshold filter)

def line (s : Settings) : String :=
  let path := match s.logFile with
    | none => "None"
    | some p => "Some(" ++ Text.quoted p ++ ")"
  "Reglages \x7b decimales: " ++ toString s.places ++
    ", historique_max: " ++ toString s.historyLimit ++
    ", niveau_log: " ++ s.threshold.title ++ ", fichier_log: " ++ path ++ " \x7d"

end Settings
end DeskCalculator
