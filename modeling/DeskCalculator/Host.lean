import DeskCalculator.Journal

/-!
# The host

What the program finds around it: a system that creates files, and a logging library whose loggers write
records to the terminal or to a file. How they do it is theirs; the program only asks for it.
-/
namespace DeskCalculator

inductive Target (File : Type)
  | terminal
  | file (f : File)
deriving DecidableEq

structure Logger (File : Type) where
  threshold : Threshold
  target : Target File

/-- Asking changes the world. A failure comes with the text of its error. -/
structure Host (World File : Type) where
  filter : LevelFilter
  /-- Creates the file of a path. -/
  create : String → World → Except String File × World
  /-- The installed loggers once these are to be installed, where those were before. -/
  init : Option (List (Logger File)) → List (Logger File) → Except String (List (Logger File))
  /-- Hands a record to a logger. -/
  log : Logger File → Record → World → World
  /-- The records at a target. -/
  written : Target File → World → List Record

end DeskCalculator
