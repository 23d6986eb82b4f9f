import DeskCalculator.Session

/-!
# Console

The calculator on a console. A line that is a label of the pad presses that key, any other line is
typed; after each line the window's texts are printed.
-/
namespace DeskCalculator.Console
open IO.FS (Handle)

def readEnvironment : IO (String → Option String) := do
  let pairs ← Settings.variableNames.mapM fun name => do return (name, ← IO.getEnv name)
  return fun name => (pairs.find? (·.1 == name)).bind (·.2)

def frameOfLine (line : String) : Frame :=
  match Key.ofLabel? line with
  | some key => .click key
  | none => .events [.typed line]

def writeRecord (r : Record) (logger : Logger Handle) : IO Unit := do
  let line := "[" ++ r.level.name ++ "] " ++ r.message
  if LevelFilter.standard.passes logger.threshold r.level then
    match logger.target with
    | .terminal => IO.println line
    | .file handle =>
      handle.putStrLn line
      handle.flush

def writeRecords (loggers : List (Logger Handle)) (rs : List Record) : IO Unit :=
  rs.forM fun r => loggers.forM (writeRecord r)

def openLoggers (settings : Settings) : IO (List (Logger Handle)) := do
  let terminal : Logger Handle := ⟨settings.threshold, .terminal⟩
  match settings.logFile with
  | none => return [terminal]
  | some path =>
    try return [terminal, ⟨settings.threshold, .file (← Handle.mk path .write)⟩]
    catch e =>
      IO.eprintln ("journal " ++ path ++ ": " ++ toString e)
      return [terminal]

partial def readLines (settings : Settings) (loggers : List (Logger Handle)) (s : State) : IO Unit := do
  let line ← (← IO.getStdin).getLine
  if line.isEmpty then return
  let frame := frameOfLine (String.ofList (line.toList.filter (· != '\n')))
  writeRecords loggers (Window.records settings s [frame])
  let s := Window.afterFrame settings s frame
  for text in Window.texts s do IO.println text
  readLines settings loggers s

def run : IO Unit := do
  let settings := Settings.ofVariables .standard (← readEnvironment)
  let loggers ← openLoggers settings
  writeRecords loggers [Session.startRecord settings]
  readLines settings loggers {}

end DeskCalculator.Console

def main : IO Unit := DeskCalculator.Console.run
