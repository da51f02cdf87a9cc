import Octet.Machine.Execute

/-!
# Fleets

Several machines in one world. Each has its own scope, so what one machine does is not seen by the
others although all their bytes are in one store.

* `Fleet.launch`: loads one more machine.
* `Fleet.on`: lets one machine do something.
-/

namespace Octet

/-- Machines that share a world, in the order in which they were loaded. -/
structure Fleet extends World where
  machines : Array Machine
  deriving DecidableEq, Repr

namespace Fleet

/-- No machine in an empty world. -/
def empty : Fleet := ⟨.empty, #[]⟩

/-- Loads one more machine. -/
def launch (fleet : Fleet) (program : Program) (settings : Settings) : Except Error Unit × Fleet :=
  match (Machine.load program settings).run fleet.toWorld with
  | .ok m w => (.ok (), ⟨w, fleet.machines.push m⟩)
  | .error e w => (.error e, { fleet with toWorld := w })

/-- The state of a machine of the fleet. -/
def state? (fleet : Fleet) (i : Nat) : Option State :=
  fleet.machines[i]?.map fun m => ⟨fleet.toWorld, m⟩

/-- The fleet after machine `i` has come into a state. -/
def update (fleet : Fleet) (i : Nat) (s : State) : Fleet :=
  ⟨s.toWorld, fleet.machines.setIfInBounds i s.machine⟩

/-- Lets machine `i` do something; there is no answer if there is no such machine. -/
def on {α : Type} (fleet : Fleet) (i : Nat) (action : Exec α) : Option (Except Error α × Fleet) :=
  (fleet.state? i).map fun s =>
    match action.run s with
    | .ok a s => (.ok a, fleet.update i s)
    | .error e s => (.error e, fleet.update i s)

end Fleet
end Octet
