import Octet.Program
import Octet.Scope
import Octet.Source
import Octet.Tally

/-!
# Machines

A machine is a loaded program with its scope, the index of its next instruction and a tally of what it
has executed. Its bytes are in the store of the world.

* `Machine.load`, `Machine.ofSource`: a machine in a new scope.
* `Machine.read`: the value of a name.
-/

namespace Octet

/-- A loaded program and how far it has been executed. -/
structure Machine where
  program : Program
  settings : Settings
  scope : Scope
  /-- The index of the next instruction. -/
  ip : Nat
  tally : Tally
  deriving DecidableEq, Repr

namespace Machine

/-- Loads a program. -/
def load (program : Program) (settings : Settings) : Action Machine := do
  Action.emit (.loading program.declarations.length program.dataSize program.length)
  let scope ← Scope.load program.declarations
  return ⟨program, settings, scope, 0, .zero⟩

/-- Loads the program of a source text. -/
def ofSource (source : String) (settings : Settings) : Action Machine := do
  let program ← Program.parse source
  load program settings

/-- The next instruction, if there is one. -/
def current? (m : Machine) : Option Instruction :=
  m.program.code[m.ip]?

/-- How many instructions are left. -/
def remaining (m : Machine) : Nat :=
  m.program.length - m.ip

/-- Whether no instruction is left. -/
def isHalted (m : Machine) : Bool :=
  decide (m.program.length ≤ m.ip)

/-- The value of a name. -/
def read (m : Machine) (s : Store) (name : String) : Except Error Value :=
  m.scope.read s name

/-- The machine after an instruction with this opcode has been executed. -/
def retire (m : Machine) (opcode : Opcode) : Machine :=
  { m with ip := m.ip + 1, tally := m.tally.record opcode }

/-- Whether a run that has executed `steps` instructions has reached its bound. -/
def isSpent (m : Machine) (steps : Nat) : Bool :=
  match m.settings.maxSteps with
  | some bound => decide (bound.toNat ≤ steps)
  | none => false

end Machine
end Octet
