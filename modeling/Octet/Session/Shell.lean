import Octet.Machine.Dump
import Octet.Machine.Execute

/-!
# Consoles

A session works on a console: the world with its log, the text on standard output, and what is said on
standard error after the log.

* `Shell`: a part of a session, which may fail.
* `Shell.onMachine`: lets a machine do something and reports how it went.
-/

namespace Octet

/-- The world of a session and what it has printed. -/
structure Console where
  world : World
  out : String
  /-- What stands on standard error after the log. -/
  err : String

/-- A part of a session. -/
abbrev Shell := EStateM Error Console

namespace Shell

/-- Prints on standard output. -/
def print (text : String) : Shell Unit :=
  modify fun c => { c with out := c.out ++ text }

/-- Prints on standard error. -/
def complain (text : String) : Shell Unit :=
  modify fun c => { c with err := c.err ++ text }

/-- An action on the world. -/
def ofAction {α : Type} (action : Action α) : Shell α := fun c =>
  match action.run c.world with
  | .ok a world => .ok a { c with world }
  | .error e world => .error e { c with world }

instance : MonadLift Action Shell := ⟨ofAction⟩

/-- Lets a machine do something. An error is a result like any other here. -/
def onMachine {α : Type} (m : Machine) (action : Exec α) : Shell (Except Error α × Machine) := fun c =>
  match action.run ⟨c.world, m⟩ with
  | .ok a s => .ok (.ok a, s.machine) { c with world := s.toWorld }
  | .error e s => .ok (.error e, s.machine) { c with world := s.toWorld }

/-- Prints the state of a machine. -/
def printDump (m : Machine) : Shell Unit := do
  let c ← get
  print (m.dump c.world.store)

end Shell
end Octet
