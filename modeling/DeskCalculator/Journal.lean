/-!
# Journal

Records of what the calculator did. Which of them pass a threshold, and which texts name one, is up to the
logging library.
-/
namespace DeskCalculator

inductive Level
  | error
  | warn
  | info
  | debug
  | trace
deriving DecidableEq

namespace Level

def all : List Level := [error, warn, info, debug, trace]

/-- Smaller is more serious. -/
def rank : Level → Nat
  | error => 1
  | warn => 2
  | info => 3
  | debug => 4
  | trace => 5

def name : Level → String
  | error => "ERROR"
  | warn => "WARN"
  | info => "INFO"
  | debug => "DEBUG"
  | trace => "TRACE"

def title : Level → String
  | error => "Error"
  | warn => "Warn"
  | info => "Info"
  | debug => "Debug"
  | trace => "Trace"

end Level

/-- The least serious level that passes; `none` lets nothing pass. -/
abbrev Threshold := Option Level

namespace Threshold

def name : Threshold → String
  | none => "OFF"
  | some l => l.name

def title : Threshold → String
  | none => "Off"
  | some l => l.title

end Threshold

structure Record where
  level : Level
  message : String
deriving DecidableEq

/-- What the logging library makes of thresholds: the texts it reads as one, and the levels that pass. -/
structure LevelFilter where
  read : String → Option Threshold
  passes : Threshold → Level → Bool

namespace LevelFilter

def standard : LevelFilter where
  read text := (none :: Level.all.map some).find? (·.name.toList == text.toList.map Char.toUpper)
  passes t l := t.any fun m => l.rank ≤ m.rank

end LevelFilter

def Record.kept (filter : LevelFilter) (t : Threshold) (rs : List Record) : List Record :=
  rs.filter fun r => filter.passes t r.level

theorem Record.kept_append (filter : LevelFilter) (t : Threshold) (a b : List Record) :
    Record.kept filter t (a ++ b) = Record.kept filter t a ++ Record.kept filter t b :=
  List.filter_append ..

end DeskCalculator
