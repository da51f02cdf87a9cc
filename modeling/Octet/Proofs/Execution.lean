import Octet.Proofs.Arithmetic
import Octet.Proofs.Memory

/-!
# What one instruction does

An instruction computes a value and puts it where one name is. Everything that can fail comes first
and touches nothing: `Machine.attempt` says whether the instruction fails, and with which value it
succeeds. What follows cannot fail: the value is written through the view of the target, or `dx` gets
a new block. All later facts about execution rest on these equations and not on the monad.

* `Machine.run_execute`: **an instruction fails as `Machine.attempt` says and changes nothing, or
  succeeds with `State.deliver`.**
* `Machine.run_step`: the same for the next instruction, with the log and the tally.
* `Machine.step_eq_stepAhead`: a step may move on first, and back if the instruction fails.
* `Machine.run_write`: the same for a write from outside.
-/

namespace Octet

/-- Two results that come before a change of state decide whether the change takes place. -/
theorem run_liftM_liftM_bind {σ α β γ : Type} (x : Except Error α) (g : α → Except Error β)
    (f : β → EStateM Error σ γ) (s : σ) :
    ((liftM x : EStateM Error σ α) >>= fun a => (liftM (g a) : EStateM Error σ β) >>= f).run s =
      match x >>= g with
      | .ok b => (f b).run s
      | .error e => .error e s := by
  cases x with
  | error e => rfl
  | ok a => cases hg : g a <;> simp [hg]

theorem run_tryCatch {ε σ α : Type} (x : EStateM ε σ α) (f : ε → EStateM ε σ α) (s : σ) :
    (tryCatch x f).run s =
      match x.run s with
      | .ok a t => .ok a t
      | .error e t => (f e).run t := by
  show EStateM.tryCatch x f s = _
  unfold EStateM.tryCatch EStateM.run
  cases x s <;> rfl

/-- The name that an instruction gives a value. -/
def Instruction.target : Instruction → String
  | .binary _ target _ => target
  | .cbw => Register.ax.name
  | .cwd => Register.dx.name

/-- Whether a value can be written to a name. -/
def Scope.admit (scope : Scope) (name : String) (x : Value) : Except Error Unit := do
  let v ← scope.get name
  if x.width = v.width then .ok () else .error (.widthMismatch v.width.bytes x.width.bytes)

namespace State

/-- The state with a value written through the view of a name. -/
def assign (s : State) (name : String) (x : Value) : State :=
  match s.machine.scope.lookup? name with
  | some v => { s with store := s.store.patch v.handle v.offset x.bytes }
  | none => s

/-- The state with a new block for `dx` that holds a value. -/
def detachDx (s : State) (x : Value) : State :=
  { s with
    store := (View.detached s.store x).2
    log := s.log.push (.detached x)
    machine.scope := s.machine.scope.bind Register.dx.name (View.detached s.store x).1 }

/-- The state in which the next instruction has been logged, if the settings ask for it. -/
def announced (s : State) (i : Instruction) : State :=
  if s.machine.settings.trace then { s with log := s.log.push (.step s.machine.ip i) } else s

/-- The state with another index of the next instruction. -/
def goto (s : State) (ip : Nat) : State :=
  { s with machine.ip := ip }

/-- The state with an instruction more in the tally. -/
def counted (s : State) (i : Instruction) : State :=
  { s with machine.tally := s.machine.tally.record i.opcode }

/-- The state in which the next instruction counts as executed. -/
def retired (s : State) (i : Instruction) : State :=
  { s with machine := s.machine.retire i.opcode }

@[simp] theorem store_announced (s : State) (i : Instruction) : (s.announced i).store = s.store := by
  unfold announced; split <;> rfl

@[simp] theorem machine_announced (s : State) (i : Instruction) : (s.announced i).machine = s.machine := by
  unfold announced; split <;> rfl

@[simp] theorem machine_assign (s : State) (name : String) (x : Value) :
    (s.assign name x).machine = s.machine := by
  unfold assign; split <;> rfl

theorem store_assign {s : State} {name : String} {v : View}
    (hv : s.machine.scope.lookup? name = some v) (x : Value) :
    (s.assign name x).store = s.store.patch v.handle v.offset x.bytes := by
  unfold assign
  rw [hv]

end State

namespace Machine

/-- The value that an instruction computes for its target. -/
def compute (m : Machine) (s : Store) : Instruction → Except Error Value
  | .binary operation target source => do
    let v ← m.scope.get target
    let x ← m.scope.resolve s source v.width.bytes
    operation.apply (v.read s) x
  | .cbw => do
    let al ← m.scope.read s Register.al.name
    al.extend 2
  | .cwd => do
    let ax ← m.scope.read s Register.ax.name
    upperHalf ax

/-- Whether an instruction gives its target a new block. -/
def rebinds (m : Machine) (i : Instruction) : Bool :=
  decide (i = .cwd) && decide (m.settings.cwdMode = .rebind)

/-- The value that an instruction puts into its target, or why it fails. -/
def attempt (m : Machine) (s : Store) (i : Instruction) : Except Error Value := do
  let x ← m.compute s i
  if m.rebinds i then return x
  m.scope.admit i.target x
  return x

end Machine

/-- The state after an instruction has put a value into its target. -/
def State.deliver (s : State) (i : Instruction) (x : Value) : State :=
  if s.machine.rebinds i then s.detachDx x else s.assign i.target x

namespace Machine

/-- **A write from outside** fails and changes nothing, or succeeds. -/
theorem run_write (name : String) (x : Value) (s : State) :
    (write name x).run s =
      match s.machine.scope.admit name x with
      | .ok () => .ok () (s.assign name x)
      | .error e => .error e s := by
  unfold write Scope.admit State.assign Scope.get
  simp only [EStateM.run_bind, EStateM.run_get]
  cases hv : s.machine.scope.lookup? name with
  | none => rfl
  | some v =>
    simp only [Action.run_liftM_ok, Exec.run_liftM_action, Action.run_write, View.write, ok_bind]
    by_cases hx : x.width = v.width <;> simp only [hx, if_true, if_false]

theorem run_rebindDx (x : Value) (s : State) : (rebindDx x).run s = .ok () (s.detachDx x) := rfl

/-- Writing through the view of a name is writing to the name. -/
theorem run_liftM_write {name : String} {v : View} {s : State} (hv : s.machine.scope.lookup? name = some v)
    (x : Value) : (liftM (Action.write v x) : Exec Unit).run s = (write name x).run s := by
  unfold write Scope.get
  simp only [EStateM.run_bind, EStateM.run_get, hv, Action.run_liftM_ok]

theorem rebinds_binary (m : Machine) (operation : Operation) (target : String) (source : Operand) :
    m.rebinds (.binary operation target source) = false := rfl

theorem rebinds_cbw (m : Machine) : m.rebinds .cbw = false := rfl

/-- Only `cwd` gives its target a new block. -/
theorem eq_cwd_of_rebinds {m : Machine} {i : Instruction} (hr : m.rebinds i = true) : i = .cwd := by
  unfold rebinds at hr
  simp only [Bool.and_eq_true, decide_eq_true_eq] at hr
  exact hr.1

theorem rebinds_cwd (m : Machine) : m.rebinds .cwd = decide (m.settings.cwdMode = .rebind) := rfl

/-- An attempt that would not rebind is a computed value that the target admits. -/
theorem attempt_of_not_rebinds {m : Machine} {i : Instruction} (hr : m.rebinds i = false) (s : Store) :
    m.attempt s i = m.compute s i >>= fun x => m.scope.admit i.target x >>= fun _ => .ok x := by
  unfold attempt
  simp only [hr, Bool.false_eq_true, if_false]
  rfl

theorem attempt_of_rebinds {m : Machine} {i : Instruction} (hr : m.rebinds i = true) (s : Store) :
    m.attempt s i = m.compute s i := by
  unfold attempt
  simp only [hr, if_true]
  cases m.compute s i <;> rfl

/-- Writing what was computed is the rest of an instruction that does not rebind. -/
theorem run_write_target {i : Instruction} {s : State} {x : Value} (hr : s.machine.rebinds i = false)
    (hx : s.machine.compute s.store i = .ok x) :
    (write i.target x).run s =
      match s.machine.attempt s.store i with
      | .ok x => .ok () (s.deliver i x)
      | .error e => .error e s := by
  rw [run_write, attempt_of_not_rebinds hr, hx, ok_bind]
  cases ha : s.machine.scope.admit i.target x with
  | error e => rfl
  | ok _ => simp only [ok_bind, State.deliver, hr, Bool.false_eq_true, if_false]

/-- An instruction whose value cannot be computed fails and changes nothing. -/
theorem attempt_of_compute_error {m : Machine} {s : Store} {i : Instruction} {e : Error}
    (hx : m.compute s i = .error e) : m.attempt s i = .error e := by
  unfold attempt
  rw [hx]
  rfl

/-- **What an operation makes of a target and a source that are there.** -/
theorem attempt_binary {m : Machine} {s : Store} (operation : Operation) {target : String}
    {source : Operand} {v : View} {x : Value} (hv : m.scope.get target = .ok v)
    (hx : m.scope.resolve s source v.width.bytes = .ok x) :
    m.attempt s (.binary operation target source) =
      if x.width = v.width then
        .ok (Value.ofInt (operation.eval (v.read s).magnitude x.magnitude) v.width)
      else .error (.widthMismatch v.width.bytes x.width.bytes) := by
  have hc : m.compute s (.binary operation target source) = operation.apply (v.read s) x := by
    simp [compute, hv, hx]
  have ha : ∀ y, m.scope.admit target y =
      if y.width = v.width then .ok () else .error (.widthMismatch v.width.bytes y.width.bytes) := by
    intro y
    unfold Scope.admit
    rw [hv]
    rfl
  rw [attempt_of_not_rebinds rfl, hc]
  by_cases hw : x.width = v.width
  · rw [if_pos hw, operation.apply_of_width_eq (x := v.read s) hw.symm, ok_bind]
    simp only [Instruction.target, ha, Value.width_ofInt, View.width_read, if_true, ok_bind]
  · rw [if_neg hw]
    -- a move notices the difference only when it writes
    cases operation with
    | mov =>
      rw [Operation.apply, ok_bind]
      simp only [Instruction.target, ha, hw, if_false, error_bind]
    | add => rw [Operation.apply, Value.add, Value.combine_of_width_ne (Ne.symm hw), error_bind]; rfl
    | sub => rw [Operation.apply, Value.sub, Value.combine_of_width_ne (Ne.symm hw), error_bind]; rfl

/-- An instruction succeeds with a computed value that has the width of its target. -/
theorem attempt_of_compute {m : Machine} {s : Store} {i : Instruction} {x : Value} {v : View}
    (hx : m.compute s i = .ok x) (hv : m.scope.get i.target = .ok v) (hw : x.width = v.width) :
    m.attempt s i = .ok x := by
  by_cases hr : m.rebinds i = true
  · rw [attempt_of_rebinds hr, hx]
  · rw [attempt_of_not_rebinds (by simpa using hr), hx, ok_bind]
    unfold Scope.admit
    rw [hv, ok_bind, if_pos hw, ok_bind]

/-- **What an instruction does.** -/
theorem run_execute (i : Instruction) (s : State) :
    (execute i).run s =
      match s.machine.attempt s.store i with
      | .ok x => .ok () (s.deliver i x)
      | .error e => .error e s := by
  cases i with
  | binary operation target source =>
    have hr := rebinds_binary s.machine operation target source
    simp only [execute, binary, EStateM.run_bind, EStateM.run_get]
    -- the target is looked up, the source is read, the value is computed: each may fail, none writes
    cases hv : s.machine.scope.lookup? target with
    | none =>
      rw [attempt_of_compute_error (e := .undefined target) (by simp [compute, Scope.get, hv])]
      simp [Scope.get, hv]
    | some v =>
      have hg : s.machine.scope.get target = .ok v := by simp [Scope.get, hv]
      simp only [hg, Action.run_liftM_ok]
      cases hx : s.machine.scope.resolve s.store source v.width.bytes with
      | error e =>
        rw [attempt_of_compute_error (e := e) (by simp [compute, hg, hx])]
        rfl
      | ok x =>
        simp only [Action.run_liftM_ok]
        cases hy : operation.apply (v.read s.store) x with
        | error e =>
          rw [attempt_of_compute_error (e := e) (by simp [compute, hg, hx, hy])]
          rfl
        | ok y =>
          simp only [Action.run_liftM_ok]
          rw [run_liftM_write hv]
          exact run_write_target (i := .binary operation target source) hr (by simp [compute, hg, hx, hy])
  | cbw =>
    have hc : s.machine.compute s.store .cbw =
      s.machine.scope.read s.store Register.al.name >>= fun al => al.extend 2 := rfl
    simp only [execute, cbw]
    rw [EStateM.run_bind, EStateM.run_get]
    simp only
    rw [run_liftM_liftM_bind, ← hc]
    cases hx : s.machine.compute s.store .cbw with
    | error e => rw [attempt_of_compute_error hx]
    | ok x => exact run_write_target (rebinds_cbw s.machine) hx
  | cwd =>
    have hc : s.machine.compute s.store .cwd =
      s.machine.scope.read s.store Register.ax.name >>= upperHalf := rfl
    simp only [execute, cwd]
    rw [EStateM.run_bind, EStateM.run_get]
    simp only
    rw [run_liftM_liftM_bind, ← hc]
    cases hx : s.machine.compute s.store .cwd with
    | error e => rw [attempt_of_compute_error hx]
    | ok x =>
      -- the mode matters only once there is a value to put somewhere
      cases hm : s.machine.settings.cwdMode with
      | writeThrough =>
        have hr : s.machine.rebinds .cwd = false := by rw [rebinds_cwd, hm]; rfl
        exact run_write_target hr hx
      | rebind =>
        have hr : s.machine.rebinds .cwd = true := by rw [rebinds_cwd, hm]; rfl
        rw [attempt_of_rebinds hr, hx]
        simp only [run_rebindDx, State.deliver, hr, if_true]

/-- The next instruction and the value that it puts into its target, or why there is none. -/
def next (m : Machine) (s : Store) : Except Error (Instruction × Value) :=
  match m.current? with
  | none => .error (.pastEnd m.ip m.program.length)
  | some i => (m.attempt s i).map fun x => (i, x)

end Machine

/-- The state after a failed step: at most the log is longer. -/
def State.refused (s : State) : State :=
  match s.machine.current? with
  | none => s
  | some i => s.announced i

@[simp] theorem State.store_refused (s : State) : s.refused.store = s.store := by
  unfold refused; split <;> simp

@[simp] theorem State.machine_refused (s : State) : s.refused.machine = s.machine := by
  unfold refused; split <;> simp

namespace Machine

theorem run_announce (i : Instruction) (s : State) :
    (liftM (announce s.machine i) : Exec Unit).run s = .ok () (s.announced i) := by
  unfold announce State.announced
  split <;> rfl

/-- **What a step does.** -/
theorem run_step (s : State) :
    step.run s =
      match s.machine.next s.store with
      | .ok (i, x) => .ok () (((s.announced i).deliver i x).retired i)
      | .error e => .error e s.refused := by
  unfold step next State.refused
  simp only [EStateM.run_bind, EStateM.run_get]
  cases hi : s.machine.current? with
  | none => rfl
  | some i =>
    simp only [EStateM.run_bind, run_announce, run_execute, State.machine_announced, State.store_announced]
    cases hx : s.machine.attempt s.store i <;> rfl

/-- An instruction puts its value somewhere and leaves the settings, the program and the index alone. -/
theorem deliver_settings (s : State) (i : Instruction) (x : Value) :
    (s.deliver i x).machine.settings = s.machine.settings ∧
      (s.deliver i x).machine.program = s.machine.program ∧ (s.deliver i x).machine.ip = s.machine.ip := by
  unfold State.deliver
  split
  · exact ⟨rfl, rfl, rfl⟩
  · simp

/-- A step that moves to the next instruction before it executes this one, and back if this one fails. -/
def stepAhead : Exec Unit := do
  let m := (← get).machine
  match m.current? with
  | none => throw (.pastEnd m.ip m.program.length)
  | some i =>
    modify fun s => s.goto (m.ip + 1)
    announce m i
    try
      execute i
    catch e =>
      modify fun s => s.goto m.ip
      throw e
    modify fun s => s.counted i

/-- What an instruction puts somewhere does not depend on where the next one is. -/
theorem deliver_goto (s : State) (ip : Nat) (i : Instruction) (x : Value) :
    (s.goto ip).deliver i x = (s.deliver i x).goto ip := by
  have hassign : (s.goto ip).assign i.target x = (s.assign i.target x).goto ip := by
    show (match s.machine.scope.lookup? i.target with | some v => _ | none => _) = _
    unfold State.assign
    split <;> rfl
  show (if s.machine.rebinds i then _ else _) = _
  unfold State.deliver
  split
  · rfl
  · exact hassign

/-- **A step may as well move on first**, since no instruction looks at the index. -/
theorem step_eq_stepAhead : step = stepAhead := by
  funext s
  show step.run s = stepAhead.run s
  rw [run_step]
  unfold stepAhead next State.refused
  simp only [EStateM.run_bind, EStateM.run_get]
  cases hi : s.machine.current? with
  | none => rfl
  | some i =>
    have hannounce : (liftM (announce s.machine i) : Exec Unit).run (s.goto (s.machine.ip + 1)) =
        .ok () ((s.announced i).goto (s.machine.ip + 1)) := by
      unfold announce State.announced
      split <;> rfl
    have hattempt : ((s.announced i).goto (s.machine.ip + 1)).machine.attempt
        ((s.announced i).goto (s.machine.ip + 1)).store i = s.machine.attempt s.store i := by
      show (s.announced i).machine.attempt (s.announced i).store i = _
      rw [State.machine_announced, State.store_announced]
    simp only [EStateM.run_bind, EStateM.run_modify, hannounce, run_tryCatch, run_execute, hattempt]
    cases s.machine.attempt s.store i with
    | error e =>
      have hback : ((s.announced i).goto (s.machine.ip + 1)).goto s.machine.ip = s.announced i := by
        unfold State.announced
        split <;> rfl
      exact congrArg (EStateM.Result.error e) hback.symm
    | ok x =>
      have hip : ((s.announced i).deliver i x).machine.ip = s.machine.ip := by
        rw [(deliver_settings (s.announced i) i x).2.2, State.machine_announced]
      have hahead : ((s.announced i).deliver i x).retired i =
          (((s.announced i).goto (s.machine.ip + 1)).deliver i x).counted i := by
        rw [deliver_goto, ← hip]
        rfl
      exact congrArg (EStateM.Result.ok ()) hahead

theorem next_ok {m : Machine} {s : Store} {i : Instruction} {x : Value} (hn : m.next s = .ok (i, x)) :
    m.current? = some i ∧ m.attempt s i = .ok x := by
  unfold next at hn
  split at hn
  case h_1 => cases hn
  case h_2 j hj =>
    cases hx : m.attempt s j with
    | error e => rw [hx] at hn; cases hn
    | ok y =>
      rw [hx] at hn
      cases hn
      exact ⟨hj, hx⟩

/-- A step that succeeds has executed the next instruction. -/
theorem step_ok {s t : State} (hst : step.run s = .ok () t) :
    ∃ i x, s.machine.current? = some i ∧ s.machine.attempt s.store i = .ok x ∧
      t = ((s.announced i).deliver i x).retired i := by
  rw [run_step] at hst
  split at hst
  case h_1 i x hn =>
    obtain ⟨hi, hx⟩ := next_ok hn
    cases hst
    exact ⟨i, x, hi, hx, rfl⟩
  case h_2 => cases hst

/-- A step that fails has changed nothing but the log. -/
theorem step_error {s t : State} {e : Error} (hst : step.run s = .error e t) :
    s.machine.next s.store = .error e ∧ t = s.refused := by
  rw [run_step] at hst
  split at hst
  case h_1 => cases hst
  case h_2 e' hn =>
    cases hst
    exact ⟨hn, rfl⟩

end Machine
end Octet
