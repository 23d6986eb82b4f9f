import DeskCalculator.Memory
import DeskCalculator.Proofs.Journal.Levels
import DeskCalculator.Session

/-! # What loggers write

All that is used of the system and of the logging library: creating a file empties it, a logger writes the
records that pass its threshold in their order and to its own target, and loggers are installed where there were
none. A target with one logger then gets the records of a process that pass, and of the loggers that settings ask
for one has the terminal.
-/
namespace DeskCalculator

structure Host.Lawful {World File : Type} (host : Host World File) : Prop where
  filter : host.filter.Documented
  written_create : ∀ {path w f w'}, host.create path w = (.ok f, w') → host.written (.file f) w' = []
  written_terminal_create : ∀ path w,
    host.written .terminal (host.create path w).2 = host.written .terminal w
  written_log : ∀ t target r w, host.written target (host.log ⟨t, target⟩ r w) =
    host.written target w ++ Record.kept host.filter t [r]
  written_log_of_ne : ∀ {l target} r w, target ≠ l.target →
    host.written target (host.log l r w) = host.written target w
  init_none : ∀ loggers, host.init none loggers = .ok loggers
  init_some : ∀ installed loggers, ∃ e, host.init (some installed) loggers = .error e

theorem Memory.host_lawful {File : Type} [DecidableEq File] :
    (host : Host (Memory File) File).Lawful where
  filter := LevelFilter.standard_documented
  written_create := by
    intro path m f m' h
    simp only [host] at h
    cases hresolve : m.resolve path with
    | error e =>
      rw [hresolve] at h
      cases h
    | ok g =>
      rw [hresolve] at h
      cases h
      simp [host, written, put]
  written_terminal_create := by
    intro path m
    simp only [host]
    cases m.resolve path <;> rfl
  written_log := by
    intro t target r m
    cases target with
    | terminal => rfl
    | file f => simp [host, written, write, put]
  written_log_of_ne := by
    rintro ⟨t, target⟩ other r m hne
    cases target with
    | terminal =>
      cases other with
      | terminal => exact absurd rfl hne
      | file g => rfl
    | file f =>
      cases other with
      | terminal => rfl
      | file g =>
        have hg : g ≠ f := fun h => hne (congrArg Target.file h)
        simp [host, written, write, put, hg]
  init_none := fun _ => rfl
  init_some := fun _ _ => ⟨_, rfl⟩

variable {World File : Type} {host : Host World File} {loggers : List (Logger File)}
  {target : Target File} {t : Threshold}

/-- One logger, with this threshold, has the target, and no other has. -/
def SoleLogger (loggers : List (Logger File)) (target : Target File) (t : Threshold) : Prop :=
  ∃ before after, loggers = before ++ ⟨t, target⟩ :: after ∧
    ∀ l ∈ before ++ after, target ≠ l.target

theorem Host.Lawful.written_foldl_of_ne (h : host.Lawful) (r : Record) (w : World)
    (hne : ∀ l ∈ loggers, target ≠ l.target) :
    host.written target (loggers.foldl (fun w l => host.log l r w) w) = host.written target w := by
  induction loggers generalizing w with
  | nil => rfl
  | cons l loggers ih =>
    obtain ⟨hl, hloggers⟩ := List.forall_mem_cons.mp hne
    rw [List.foldl_cons, ih _ hloggers, h.written_log_of_ne r w hl]

theorem Host.Lawful.written_foldl (h : host.Lawful) (r : Record) (w : World)
    (hsole : SoleLogger loggers target t) :
    host.written target (loggers.foldl (fun w l => host.log l r w) w) =
      host.written target w ++ Record.kept host.filter t [r] := by
  obtain ⟨before, after, rfl, hne⟩ := hsole
  obtain ⟨hbefore, hafter⟩ := List.forall_mem_append.mp hne
  rw [List.foldl_append, List.foldl_cons, h.written_foldl_of_ne r _ hafter, h.written_log,
    h.written_foldl_of_ne r w hbefore]

namespace Process
variable {p : Process World File}

theorem written_emit (h : host.Lawful) (hp : p.installed = some loggers)
    (hsole : SoleLogger loggers target t) (r : Record) :
    host.written target (p.emit host r).world =
      host.written target p.world ++ Record.kept host.filter t [r] := by
  rw [emit, hp]
  exact h.written_foldl r p.world hsole

theorem emitAll_cons (host : Host World File) (p : Process World File) (r : Record) (rs : List Record) :
    p.emitAll host (r :: rs) = (p.emit host r).emitAll host rs := rfl

theorem complaints_emitAll (host : Host World File) (p : Process World File) (rs : List Record) :
    (p.emitAll host rs).complaints = p.complaints := by
  induction rs generalizing p with
  | nil => rfl
  | cons r rs ih => exact ih (p.emit host r)

/-- Nobody hears of a record before loggers are installed. -/
theorem emitAll_of_installed_eq_none (host : Host World File) (hp : p.installed = none)
    (rs : List Record) : p.emitAll host rs = p := by
  have hemit : ∀ r, p.emit host r = p := by
    intro r
    cases p
    cases hp
    rfl
  induction rs with
  | nil => rfl
  | cons r rs ih => rw [emitAll_cons, hemit, ih]

theorem written_emitAll (h : host.Lawful) (hp : p.installed = some loggers)
    (hsole : SoleLogger loggers target t) (rs : List Record) :
    host.written target (p.emitAll host rs).world =
      host.written target p.world ++ Record.kept host.filter t rs := by
  induction rs generalizing p with
  | nil => exact (List.append_nil _).symm
  | cons r rs ih =>
    have hkept := Record.kept_append host.filter t [r] rs
    rw [emitAll_cons, ih (p := p.emit host r) hp, written_emit h hp hsole, List.append_assoc, ← hkept]
    rfl

section opening
variable {settings : Settings} {path : String} {w : World}

theorem openLoggers_of_ok {file : File} (h : settings.logFile = some path)
    (hcreate : host.create path p.world = (.ok file, w)) :
    openLoggers host settings p =
      ([⟨settings.threshold, .terminal⟩, ⟨settings.threshold, .file file⟩], { p with world := w }) := by
  simp only [openLoggers, h, hcreate]

theorem openLoggers_of_error {e : String} (h : settings.logFile = some path)
    (hcreate : host.create path p.world = (.error e, w)) :
    openLoggers host settings p =
      ([⟨settings.threshold, .terminal⟩],
        complain ("journal " ++ path ++ ": " ++ e) { p with world := w }) := by
  simp only [openLoggers, h, hcreate]

variable (host p settings)

/-- Whatever becomes of the file, one logger is for the terminal. Nothing is written there yet, and the installed
loggers stay. -/
theorem openLoggers_spec :
    let opened := openLoggers host settings p
    SoleLogger opened.1 .terminal settings.threshold ∧ opened.2.installed = p.installed ∧
      (host.Lawful → host.written .terminal opened.2.world = host.written .terminal p.world) := by
  intro opened
  cases hfile : settings.logFile with
  | none =>
    have hopened : opened = ([⟨settings.threshold, .terminal⟩], p) := by
      simp only [opened, openLoggers, hfile]
    rw [hopened]
    exact ⟨⟨[], [], rfl, by simp⟩, rfl, fun _ => rfl⟩
  | some path =>
    rcases hcreate : host.create path p.world with ⟨made, w⟩
    have hterminal : host.Lawful → host.written .terminal w = host.written .terminal p.world := by
      intro h
      simpa only [hcreate] using h.written_terminal_create path p.world
    cases made with
    | error e =>
      have hopened : opened = _ := openLoggers_of_error hfile hcreate
      rw [hopened]
      exact ⟨⟨[], [], rfl, by simp⟩, rfl, hterminal⟩
    | ok file =>
      have hopened : opened = _ := openLoggers_of_ok hfile hcreate
      rw [hopened]
      exact ⟨⟨[], [⟨settings.threshold, .file file⟩], rfl, by simp⟩, rfl, hterminal⟩

variable {host p} (h : host.Lawful)
include h

theorem install_of_installed_eq_none (hp : p.installed = none) :
    let opened := openLoggers host settings p
    install host settings p = (.ok (), { opened.2 with installed := some opened.1 }) := by
  obtain ⟨-, hinstalled, -⟩ := openLoggers_spec host p settings
  simp only [install, hinstalled, hp, h.init_none]

/-- Loggers that are in place stay, though the file is created all the same. -/
theorem install_of_installed_eq_some {loggers : List (Logger File)} (hp : p.installed = some loggers) :
    ∃ e, install host settings p = (.error e, (openLoggers host settings p).2) ∧
      (openLoggers host settings p).2.installed = some loggers := by
  obtain ⟨-, hinstalled, -⟩ := openLoggers_spec host p settings
  obtain ⟨e, he⟩ := h.init_some loggers (openLoggers host settings p).1
  refine ⟨e, ?_, hinstalled.trans hp⟩
  simp only [install, hinstalled, hp, he]

end opening

end Process
end DeskCalculator
