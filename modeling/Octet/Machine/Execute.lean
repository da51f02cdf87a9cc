import Octet.Machine

/-!
# Execution

What a machine does: single instructions, and runs of them. An instruction that fails leaves the index
of the next instruction where it is; a run stops there.

* `Machine.step`: executes the next instruction.
* `Machine.run`: executes instructions until none is left, the bound is reached, or one fails.
* `Machine.write`: changes the value of a name from outside.
-/

namespace Octet

/-- The value of an operation on the target's value and the source's value. -/
def Operation.apply : Operation → Value → Value → Except Error Value
  | .mov, _, source => .ok source
  | .add, target, source => target.add source
  | .sub, target, source => target.sub source

/-- How a run ended, with the number of instructions that it executed. -/
inductive Outcome where
  /-- No instruction is left. -/
  | halted (steps : Nat)
  /-- The bound of the settings was reached. -/
  | stepLimit (steps : Nat)
  deriving DecidableEq, Repr

/-- A machine and the world that its bytes are in. -/
structure State extends World where
  machine : Machine
  deriving DecidableEq, Repr

/-- A change of a machine and its world that may fail. -/
abbrev Exec := EStateM Error State

namespace Exec

/-- An action on the world leaves the machine alone. -/
def ofAction {α : Type} (action : Action α) : Exec α := fun s =>
  match action.run s.toWorld with
  | .ok a w => .ok a { s with toWorld := w }
  | .error e w => .error e { s with toWorld := w }

instance : MonadLift Action Exec := ⟨ofAction⟩

@[simp] theorem run_liftM_action {α : Type} (action : Action α) (s : State) :
    (liftM action : Exec α).run s =
      match action.run s.toWorld with
      | .ok a w => .ok a { s with toWorld := w }
      | .error e w => .error e { s with toWorld := w } := rfl

end Exec

namespace Machine

/-- Moves, adds or subtracts the source into the target. -/
def binary (operation : Operation) (target : String) (source : Operand) : Exec Unit := do
  let s ← get
  let v ← s.machine.scope.get target
  let x ← s.machine.scope.resolve s.store source v.width.bytes
  let y ← operation.apply (v.read s.store) x
  Action.write v y

/-- Extends `al` into `ax`. -/
def cbw : Exec Unit := do
  let s ← get
  let al ← s.machine.scope.read s.store Register.al.name
  let wide ← al.extend 2
  let ax ← s.machine.scope.get Register.ax.name
  Action.write ax wide

/-- The upper half of a value extended to four bytes. -/
def upperHalf (x : Value) : Except Error Value := do
  let wide ← x.extend 4
  let halves ← wide.split [2, 2]
  match halves[1]? with
  | some high => .ok high
  | none => .error (.invalidSplit wide.width.bytes [2, 2])

/-- Gives `dx` a new block that holds a value. -/
def rebindDx (x : Value) : Exec Unit := do
  Action.emit (.detached x)
  let v ← Action.detach x
  modify fun s => { s with machine.scope := s.machine.scope.bind Register.dx.name v }

/-- Extends `ax` into `dx` and `ax`. -/
def cwd : Exec Unit := do
  let s ← get
  let ax ← s.machine.scope.read s.store Register.ax.name
  let high ← upperHalf ax
  match s.machine.settings.cwdMode with
  | .writeThrough =>
    let dx ← s.machine.scope.get Register.dx.name
    Action.write dx high
  | .rebind => rebindDx high

/-- Does what an instruction says. -/
def execute : Instruction → Exec Unit
  | .binary operation target source => binary operation target source
  | .cbw => cbw
  | .cwd => cwd

/-- Logs the instruction that is about to be executed, if the settings ask for it. -/
def announce (m : Machine) (i : Instruction) : Action Unit :=
  if m.settings.trace then Action.emit (.step m.ip i) else pure ()

/-- Executes the next instruction. -/
def step : Exec Unit := do
  let m := (← get).machine
  match m.current? with
  | none => throw (.pastEnd m.ip m.program.length)
  | some i =>
    announce m i
    execute i
    modify fun s => { s with machine := s.machine.retire i.opcode }

/-- Executes at most `left` instructions after `steps` others, the bound permitting. -/
def runFrom (steps : Nat) : Nat → Exec Outcome
  | 0 => pure (.halted steps)
  | left + 1 => do
    if (← get).machine.isSpent steps then return .stepLimit steps
    step
    runFrom (steps + 1) left

/-- Executes instructions until none is left, the bound is reached, or one fails. -/
def run : Exec Outcome := do
  runFrom 0 (← get).machine.remaining

/-- Writes a value through the view of a name. -/
def write (name : String) (x : Value) : Exec Unit := do
  let v ← (← get).machine.scope.get name
  Action.write v x

end Machine
end Octet
