import DeskCalculator.Host

/-!
# A host in memory

A world that is only written down: where paths lead, and what has been logged. It stands for a system and a
logging library where there are none.
-/
namespace DeskCalculator

structure Memory (File : Type) where
  /-- The file of a path, or why it cannot be created. -/
  resolve : String → Except String File
  files : File → Option (List Record) := fun _ => none
  terminal : List Record := []

namespace Memory
variable {File : Type} [DecidableEq File]

def put (m : Memory File) (f : File) (rs : List Record) : Memory File :=
  { m with files := fun g => if g = f then some rs else m.files g }

def written (m : Memory File) : Target File → List Record
  | .terminal => m.terminal
  | .file f => (m.files f).getD []

def write (m : Memory File) (target : Target File) (rs : List Record) : Memory File :=
  match target with
  | .terminal => { m with terminal := m.terminal ++ rs }
  | .file f => m.put f (m.written (.file f) ++ rs)

def host : Host (Memory File) File where
  filter := .standard
  create path m :=
    match m.resolve path with
    | .ok f => (.ok f, m.put f [])
    | .error e => (.error e, m)
  init
    | none, ls => .ok ls
    | some _, _ => .error "attempted to set a logger after the logging system was already initialized"
  log l r m := m.write l.target (Record.kept .standard l.threshold [r])
  written target m := m.written target

end Memory
end DeskCalculator
