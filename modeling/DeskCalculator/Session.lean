import DeskCalculator.Host
import DeskCalculator.Window

/-!
# A session

The whole run of the program: settings from variables, loggers for the terminal and, if it can be created,
for a file, and a window that plays frames and closes. Until the loggers are installed nobody hears of a
record.
-/
namespace DeskCalculator

structure Process (World File : Type) where
  world : World
  installed : Option (List (Logger File)) := none
  /-- The lines on standard error. -/
  complaints : List String := []

structure Session (World File : Type) where
  window : Window.Options
  /-- The texts shown after each frame. -/
  screens : List (List String)
  process : Process World File

namespace Process
variable {World File : Type} (host : Host World File)

def complain (line : String) (p : Process World File) : Process World File :=
  { p with complaints := p.complaints ++ [line] }

def emit (p : Process World File) (r : Record) : Process World File :=
  { p with world := (p.installed.getD []).foldl (fun w l => host.log l r w) p.world }

def emitAll (p : Process World File) (rs : List Record) : Process World File := rs.foldl (emit host) p

def openLoggers (settings : Settings) (p : Process World File) :
    List (Logger File) × Process World File :=
  let terminal : Logger File := ⟨settings.threshold, .terminal⟩
  match settings.logFile with
  | none => ([terminal], p)
  | some path =>
    match host.create path p.world with
    | (.ok file, world) => ([terminal, ⟨settings.threshold, .file file⟩], { p with world := world })
    | (.error e, world) =>
      ([terminal], complain ("journal " ++ path ++ ": " ++ e) { p with world := world })

def install (settings : Settings) (p : Process World File) :
    Except String Unit × Process World File :=
  let (loggers, p) := openLoggers host settings p
  match host.init p.installed loggers with
  | .ok loggers => (.ok (), { p with installed := some loggers })
  | .error e => (.error e, p)

end Process

namespace Session
variable {World File : Type} (host : Host World File)

def startRecord (settings : Settings) : Record :=
  ⟨.info, Window.title ++ " : démarrage (" ++ settings.line ++ ")"⟩

def start (env : String → Option String) (world : World) : Process World File :=
  let settings := Settings.ofVariables host.filter env
  let p := Process.emitAll host { world := world } (Settings.warnings host.filter env)
  let p := match Process.install host settings p with
    | (.ok _, p) => p
    | (.error e, p) => p.complain ("journal: " ++ e)
  p.emit host (startRecord settings)

def play (settings : Settings) (s : State) (p : Process World File) :
    List Frame → List (List String) × Process World File
  | [] => ([], p)
  | f :: fs =>
    let next := Window.afterFrame settings s f
    let (screens, q) := play settings next (p.emitAll host (s.recordsOf settings f.keys)) fs
    (Window.texts next :: screens, q)

def run (env : String → Option String) (world : World) (frames : List Frame) : Session World File :=
  let (screens, p) := play host (Settings.ofVariables host.filter env) {} (start host env world) frames
  { window := Window.options, screens := screens, process := p }

end Session
end DeskCalculator
