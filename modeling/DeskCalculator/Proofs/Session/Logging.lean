import DeskCalculator.Proofs.Session.Loggers
import DeskCalculator.Proofs.Settings.Variables
import DeskCalculator.Proofs.State.Agreement

/-! # What logging does to a session

Level and log file decide what is written where and nothing that the window shows. Each record of a run goes to
all loggers that were installed at its start: one for the terminal and, if there is a file, one for the file,
with the same threshold.
-/
namespace DeskCalculator

/-- Settings that differ in the logging only go through the same states. -/
theorem Window.states_congr {settings settings' : Settings}
    (hp : settings.places = settings'.places) (hl : settings.historyLimit = settings'.historyLimit)
    (s : State) (frames : List Frame) : states settings s frames = states settings' s frames := by
  induction frames generalizing s with
  | nil => rfl
  | cons frame frames ih =>
    have hframe : afterFrame settings s frame = afterFrame settings' s frame :=
      State.pressAll_congr hp hl s _
    rw [states, states, hframe, ih]

namespace Session
open Settings

variable {World File : Type} {host : Host World File}

theorem play_eq (settings : Settings) (s : State) (p : Process World File) (frames : List Frame) :
    play host settings s p frames =
      ((Window.states settings s frames).map Window.texts,
        p.emitAll host (Window.records settings s frames)) := by
  induction frames generalizing s p with
  | nil => rfl
  | cons f frames ih =>
    have hrecords : Window.records settings s (f :: frames) =
        s.recordsOf settings f.keys ++ Window.records settings (Window.afterFrame settings s f) frames :=
      State.recordsOf_append settings s f.keys _
    rw [play, ih, hrecords, Process.emitAll, Process.emitAll, Process.emitAll, List.foldl_append]
    rfl

/-- What is recorded once the loggers are installed. -/
def records (settings : Settings) (frames : List Frame) : List Record :=
  startRecord settings :: Window.records settings {} frames

/-- A log file changes no record but that of the start. -/
theorem records_setLogFile (settings : Settings) (file : Option String) (frames : List Frame) :
    records { settings with logFile := file } frames =
      startRecord { settings with logFile := file } :: Window.records settings {} frames := by
  have hp : { settings with logFile := file }.places = settings.places := rfl
  exact congrArg _ ((State.Agrees.refl {}).recordsOf_eq hp _)

/-- All of it goes to the loggers that the settings open; what was recorded before is lost. -/
theorem process_run (h : host.Lawful) (env : String → Option String) (w : World) (frames : List Frame) :
    let settings := ofVariables host.filter env
    let opened := Process.openLoggers host settings { world := w }
    (run host env w frames).process =
      Process.emitAll host { opened.2 with installed := some opened.1 } (records settings frames) := by
  intro settings opened
  have hwarnings := Process.emitAll_of_installed_eq_none host
    (p := { world := w, installed := none }) rfl (warnings host.filter env)
  have hinstall := Process.install_of_installed_eq_none settings h
    (p := { world := w, installed := none }) rfl
  have hstart : start host env w =
      Process.emit host { opened.2 with installed := some opened.1 } (startRecord settings) := by
    simp only [start, hwarnings, settings, hinstall, opened]
  rw [run, play_eq, hstart, records, Process.emitAll_cons]

/-- The screens follow from the frames and the two variables that are not about logging. -/
theorem screens_congr {World' File' : Type} (host : Host World File) (host' : Host World' File')
    {env env' : String → Option String} (hp : env placesVariable = env' placesVariable)
    (hh : env historyVariable = env' historyVariable) (w : World) (w' : World') (frames : List Frame) :
    (run host env w frames).screens = (run host' env' w' frames).screens := by
  have hplaces : (ofVariables host.filter env).places = (ofVariables host'.filter env').places := by
    rw [ofVariables_eq, ofVariables_eq, hp]
  have hlimit : (ofVariables host.filter env).historyLimit =
      (ofVariables host'.filter env').historyLimit := by
    rw [ofVariables_eq, ofVariables_eq, hh]
  rw [run, run, play_eq, play_eq]
  exact congrArg (List.map Window.texts) (Window.states_congr hplaces hlimit {} frames)

theorem written_terminal_run (h : host.Lawful) (env : String → Option String) (w : World)
    (frames : List Frame) :
    let settings := ofVariables host.filter env
    host.written .terminal (run host env w frames).process.world =
      host.written .terminal w ++ Record.kept host.filter settings.threshold (records settings frames) := by
  intro settings
  obtain ⟨hsole, -, hterminal⟩ := Process.openLoggers_spec host { world := w } settings
  rw [process_run h, Process.written_emitAll h rfl hsole, hterminal h]

section file
variable (h : host.Lawful) {env : String → Option String} {path : String} {w w' : World}
  (hpath : (ofVariables host.filter env).logFile = some path) (frames : List Frame)
include h hpath

theorem file_run_of_ok {file : File} (hcreate : host.create path w = (.ok file, w')) :
    let settings := ofVariables host.filter env
    let session := run host env w frames
    host.written (.file file) session.process.world =
        Record.kept host.filter settings.threshold (records settings frames) ∧
      session.process.complaints = [] := by
  intro settings session
  have hopened := Process.openLoggers_of_ok (p := { world := w, installed := none }) hpath hcreate
  have hsole : SoleLogger [⟨settings.threshold, .terminal⟩, ⟨settings.threshold, .file file⟩]
      (Target.file file) settings.threshold := ⟨[⟨settings.threshold, .terminal⟩], [], rfl, by simp⟩
  simp only [session, process_run h, hopened]
  constructor
  · rw [Process.written_emitAll h rfl hsole, h.written_create hcreate, List.nil_append]
  · rw [Process.complaints_emitAll]

theorem complaints_run_of_error {e : String} (hcreate : host.create path w = (.error e, w')) :
    (run host env w frames).process.complaints = ["journal " ++ path ++ ": " ++ e] := by
  have hopened := Process.openLoggers_of_error (p := { world := w, installed := none }) hpath hcreate
  simp only [process_run h, hopened, Process.complaints_emitAll, Process.complain, List.nil_append]

end file

/-- For every host that does as documented: the screens do not depend on the variables about logging, nor on
the host. The terminal gets the records of the threshold, none without one, and without a log file they are the
same but for the text of the first one. A log file that can be created has these records and no other, whatever
it held; one that cannot gives one complaint. -/
theorem run_logging (h : host.Lawful) (env : String → Option String) (w : World) (frames : List Frame) :
    let settings := ofVariables host.filter env
    let session := run host env w frames
    let noted := Record.kept host.filter settings.threshold (records settings frames)
    let unlogged := Function.update env fileVariable none
    (∀ {World' File' : Type} (host' : Host World' File') env' w',
      env placesVariable = env' placesVariable → env historyVariable = env' historyVariable →
        session.screens = (run host' env' w' frames).screens) ∧
    host.written .terminal session.process.world = host.written .terminal w ++ noted ∧
    (settings.threshold = none → noted = []) ∧
    (∃ rest,
      noted = Record.kept host.filter settings.threshold [startRecord settings] ++ rest ∧
        host.written .terminal (run host unlogged w frames).process.world =
          host.written .terminal w ++ Record.kept host.filter settings.threshold
            [startRecord (ofVariables host.filter unlogged)] ++ rest) ∧
    ∀ text, env fileVariable = some text → Text.trim text ≠ "" →
      match (host.create (Text.trim text) w).1 with
      | .ok file => host.written (.file file) session.process.world = noted ∧
          session.process.complaints = []
      | .error e => session.process.complaints = ["journal " ++ Text.trim text ++ ": " ++ e] := by
  intro settings session noted unlogged
  refine ⟨?_, written_terminal_run h env w frames, ?_, ?_, ?_⟩
  · intro World' File' host' env' w' hp hh
    exact screens_congr host host' hp hh w w' frames
  · intro hoff
    simp only [noted, hoff]
    exact Record.kept_none h.filter _
  · have hunlogged : ofVariables host.filter unlogged = { settings with logFile := none } :=
      ofVariables_update_file host.filter env
    refine ⟨Record.kept host.filter settings.threshold (Window.records settings {} frames),
      Record.kept_append host.filter settings.threshold [startRecord settings] _, ?_⟩
    rw [written_terminal_run h, hunlogged, records_setLogFile, List.append_assoc, ← Record.kept_append]
    rfl
  · intro text htext hne
    have hpath : settings.logFile = some (Text.trim text) :=
      logFile_ofVariables host.filter htext hne
    rcases hcreate : host.create (Text.trim text) w with ⟨e | file, w'⟩
    · exact complaints_run_of_error h hpath frames hcreate
    · exact file_run_of_ok h hpath frames hcreate

theorem run_logging_made_and_not :
    let made := fun name => if name = placesVariable then some "3"
      else if name = fileVariable then some " /log/calc.log " else none
    let notMade := fun name => if name = placesVariable then some "3"
      else if name = levelVariable then some "off"
      else if name = fileVariable then some "/log/" else none
    let old : Record := ⟨.warn, "5/0"⟩
    let memory : Memory String := {
      resolve := fun path =>
        if path = "/log/calc.log" then .ok path else .error "Is a directory (os error 21)"
      files := fun path => if path = "/log/calc.log" then some [old] else none
      terminal := [old] }
    let frames := [.events [.typed "2/3"], .click .equals]
    let session := run Memory.host made memory frames
    let session' := run Memory.host notMade memory frames
    (Memory.host : Host (Memory String) String).Lawful ∧ memory.written (.file "/log/calc.log") = [old] ∧
      session.process.world.terminal = old :: session.process.world.written (.file "/log/calc.log") ∧
      (session.process.world.written (.file "/log/calc.log")).getLast? = some ⟨.info, "2/3 = 0.667"⟩ ∧
      session.process.complaints = [] ∧
      session'.process.complaints = ["journal /log/: Is a directory (os error 21)"] ∧
      session'.process.world.terminal = [old] ∧ session.screens = session'.screens := by
  intro made notMade old memory frames session session'
  have hlawful : (Memory.host : Host (Memory String) String).Lawful := Memory.host_lawful
  obtain ⟨hscreens, hterminal, -, -, hfile⟩ := run_logging hlawful made memory frames
  obtain ⟨-, hterminal', hoff, -, hlost⟩ := run_logging hlawful notMade memory frames
  obtain ⟨hwritten, hcomplaints⟩ := hfile " /log/calc.log " (by decide) (by decide +kernel)
  have hcomplaint := hlost "/log/" (by decide) (by decide +kernel)
  refine ⟨hlawful, rfl, hterminal.trans (congrArg ([old] ++ ·) hwritten.symm), by decide +kernel,
    hcomplaints, hcomplaint, ?_, hscreens Memory.host notMade memory (by decide) (by decide)⟩
  exact hterminal'.trans (congrArg ([old] ++ ·) (hoff (by decide +kernel)))

end Session
end DeskCalculator
