import Octet.Event
import Octet.View

/-!
# The world and actions on it

The world is what all machines share: the store and the log. An action changes the world and gives a
result or an error; what it has changed before an error stays changed.

* `Action`: changes of the world that may fail.
* `Action.run_write`: a write changes the store, or fails and changes nothing.
-/

namespace Octet

/-- The store and the log, oldest event first. -/
structure World where
  store : Store
  log : Array Event
  deriving DecidableEq, Repr

/-- The world before anything has happened. -/
def World.empty : World := ⟨.empty, #[]⟩

/-- A change of the world that may fail. -/
abbrev Action := EStateM Error World

/-- A result that needs no state is a result in any state. -/
instance {σ : Type} : MonadLift (Except Error) (EStateM Error σ) := ⟨liftExcept⟩

namespace Action

variable {σ α : Type}

@[simp] theorem run_liftM_ok (a : α) (s : σ) :
    (liftM (Except.ok a : Except Error α) : EStateM Error σ α).run s = .ok a s := rfl

@[simp] theorem run_liftM_error (e : Error) (s : σ) :
    (liftM (Except.error e : Except Error α) : EStateM Error σ α).run s = .error e s := rfl

/-- Appends an event to the log. -/
def emit (e : Event) : Action Unit :=
  modify fun w => { w with log := w.log.push e }

@[simp] theorem run_emit (e : Event) (w : World) :
    (emit e).run w = .ok () { w with log := w.log.push e } := rfl

/-- Makes a block of zeros. -/
def allocZero (size : Nat) : Action Handle :=
  modifyGet fun w =>
    let (h, store) := w.store.allocZero size
    (h, { w with store })

@[simp] theorem run_allocZero (size : Nat) (w : World) :
    (allocZero size).run w =
      .ok (w.store.allocZero size).1 { w with store := (w.store.allocZero size).2 } := rfl

/-- Makes a view of a new block that holds exactly a value. -/
def detach (x : Value) : Action View :=
  modifyGet fun w =>
    let (v, store) := View.detached w.store x
    (v, { w with store })

@[simp] theorem run_detach (x : Value) (w : World) :
    (detach x).run w =
      .ok (View.detached w.store x).1 { w with store := (View.detached w.store x).2 } := rfl

/-- Makes a view of `width` bytes at `offset` of a block. -/
def view (h : Handle) (offset width : Nat) : Action View := do
  let w ← get
  View.make w.store h offset width

theorem run_view (h : Handle) (offset width : Nat) (w : World) :
    (view h offset width).run w =
      match View.make w.store h offset width with
      | .ok v => .ok v w
      | .error e => .error e w := by
  cases hv : View.make w.store h offset width <;> simp [view, hv]

/-- Writes a value through a view. -/
def write (v : View) (x : Value) : Action Unit := do
  let w ← get
  let store ← v.write w.store x
  set { w with store }

theorem run_write (v : View) (x : Value) (w : World) :
    (write v x).run w =
      match v.write w.store x with
      | .ok store => .ok () { w with store }
      | .error e => .error e w := by
  cases hv : v.write w.store x <;> simp [write, hv]

end Action
end Octet
