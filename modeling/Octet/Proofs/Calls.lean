import Octet.Proofs.Execution

/-!
# Calls and the states they lead to

A machine is used through three calls: one step, a run, and a write from outside. A call that fails is
an answer like any other, and further calls may follow it. What holds after every sequence of calls
holds because it survives what a step and a write do.

* `session_related`: **two systems that answer each call alike answer every sequence of calls alike.**
* `Reaches.invariant`: what survives a log entry, an executed instruction and a write holds in every
  reachable state.
* `Machine.runFrom_error`: a run that fails is some successful steps and a step that fails.
* `Machine.run_runFrom_remaining`: the loop of a run, until the machine has halted.
-/

namespace Octet

/-- What can be asked of a machine. -/
inductive Call where
  | step
  | run
  | write (name : String) (value : Value)
  deriving DecidableEq, Repr

/-- What a call gives if it succeeds. -/
inductive Reply where
  | done
  | ended (outcome : Outcome)
  deriving DecidableEq, Repr

/-- What a call gives. -/
abbrev Answer := Except Error Reply

/-- What a call does. -/
def Call.exec : Call → Exec Reply
  | .step => do
    Machine.step
    return .done
  | .run => do
    return .ended (← Machine.run)
  | .write name x => do
    Machine.write name x
    return .done

/-- The answer to a call, and the state after it, whether it succeeds or fails. -/
def State.perform (s : State) (c : Call) : Answer × State :=
  match c.exec.run s with
  | .ok reply t => (.ok reply, t)
  | .error e t => (.error e, t)

theorem State.perform_step (s : State) :
    s.perform .step =
      match Machine.step.run s with
      | .ok () t => (.ok .done, t)
      | .error e t => (.error e, t) := by
  unfold State.perform
  simp only [Call.exec, EStateM.run_bind]
  cases Machine.step.run s <;> rfl

theorem State.perform_run (s : State) :
    s.perform .run =
      match Machine.run.run s with
      | .ok outcome t => (.ok (.ended outcome), t)
      | .error e t => (.error e, t) := by
  unfold State.perform
  simp only [Call.exec, EStateM.run_bind]
  cases Machine.run.run s <;> rfl

theorem State.perform_write (s : State) (name : String) (x : Value) :
    s.perform (.write name x) =
      match s.machine.scope.admit name x with
      | .ok () => (.ok .done, s.assign name x)
      | .error e => (.error e, s) := by
  unfold State.perform
  simp only [Call.exec, EStateM.run_bind, Machine.run_write]
  cases s.machine.scope.admit name x <;> rfl

/-- The answers to calls that are made one after the other, and the state after the last one. -/
def session {σ : Type} (perform : σ → Call → Answer × σ) (s : σ) : List Call → List Answer × σ
  | [] => ([], s)
  | c :: cs =>
    let rest := session perform (perform s c).2 cs
    ((perform s c).1 :: rest.1, rest.2)

/-- Two systems that answer some calls alike answer every sequence of such calls alike. -/
theorem session_related_of_mem {σ τ : Type} {f : σ → Call → Answer × σ} {g : τ → Call → Answer × τ}
    {R : σ → τ → Prop} (calls : List Call) : ∀ s t, R s t →
    (∀ s t, ∀ c ∈ calls, R s t → (f s c).1 = (g t c).1 ∧ R (f s c).2 (g t c).2) →
      (session f s calls).1 = (session g t calls).1 ∧ R (session f s calls).2 (session g t calls).2 := by
  induction calls with
  | nil => intro s t hst _; exact ⟨rfl, hst⟩
  | cons c cs ih =>
    intro s t hst hcall
    obtain ⟨ha, hst'⟩ := hcall s t c List.mem_cons_self hst
    obtain ⟨has, hend⟩ := ih _ _ hst' fun s t c' hc' => hcall s t c' (List.mem_cons_of_mem _ hc')
    simp only [session]
    exact ⟨by rw [ha, has], hend⟩

/-- **Two systems that answer each call alike answer every sequence of calls alike.** -/
theorem session_related {σ τ : Type} {f : σ → Call → Answer × σ} {g : τ → Call → Answer × τ}
    {R : σ → τ → Prop}
    (hcall : ∀ s t c, R s t → (f s c).1 = (g t c).1 ∧ R (f s c).2 (g t c).2) (calls : List Call) :
    ∀ s t, R s t →
      (session f s calls).1 = (session g t calls).1 ∧ R (session f s calls).2 (session g t calls).2 :=
  fun s t hst => session_related_of_mem calls s t hst fun s t c _ => hcall s t c

/-- The last of some calls is answered in the state that the others lead to. -/
theorem session_concat {σ : Type} (perform : σ → Call → Answer × σ) (calls : List Call) (c : Call) : ∀ s,
    session perform s (calls ++ [c]) =
      ((session perform s calls).1 ++ [(perform (session perform s calls).2 c).1],
        (perform (session perform s calls).2 c).2) := by
  induction calls with
  | nil => intro s; rfl
  | cons c' calls ih => intro s; rw [List.cons_append, session, ih]; rfl

/-- A state that some calls lead to. -/
def Reaches (s t : State) : Prop :=
  ∃ calls, (session State.perform s calls).2 = t

namespace Machine

/-- **The loop of a run**, one round. -/
theorem run_runFrom_succ (steps left : Nat) (s : State) :
    (runFrom steps (left + 1)).run s =
      if s.machine.isSpent steps then .ok (.stepLimit steps) s
      else
        match step.run s with
        | .ok () t => (runFrom (steps + 1) left).run t
        | .error e t => .error e t := by
  rw [runFrom, EStateM.run_bind, EStateM.run_get]
  simp only
  split
  · rfl
  · rw [EStateM.run_bind]
    cases step.run s <;> rfl

theorem run_run (s : State) : run.run s = (runFrom 0 s.machine.remaining).run s := rfl

/-- What a step keeps, a run keeps, whether it succeeds or fails. -/
theorem runFrom_invariant {P : State → Prop}
    (hok : ∀ s t, P s → step.run s = .ok () t → P t)
    (herror : ∀ s t e, P s → step.run s = .error e t → P t) (left : Nat) :
    ∀ steps s, P s →
      match (runFrom steps left).run s with
      | .ok _ t => P t
      | .error _ t => P t := by
  induction left with
  | zero => intro steps s hs; exact hs
  | succ left ih =>
    intro steps s hs
    rw [run_runFrom_succ]
    by_cases hspent : s.machine.isSpent steps = true
    · rw [if_pos hspent]; exact hs
    · rw [if_neg hspent]
      -- the bound is not reached, so the round takes a step
      cases hst : step.run s with
      | ok u t => exact ih (steps + 1) t (hok s t hs hst)
      | error e t => exact herror s t e hs hst

end Machine

/-- What a log entry, an executed instruction and an admitted write keep. -/
structure Stable (P : State → Prop) : Prop where
  log : ∀ s log, P s → P { s with log }
  execute : ∀ s i x, P s → s.machine.current? = some i → s.machine.attempt s.store i = .ok x →
    P ((s.deliver i x).retired i)
  assign : ∀ s name x, P s → s.machine.scope.admit name x = .ok () → P (s.assign name x)

namespace Stable

variable {P : State → Prop}

theorem announced (hP : Stable P) {s : State} (hs : P s) (i : Instruction) : P (s.announced i) := by
  unfold State.announced
  split
  · exact hP.log s _ hs
  · exact hs

theorem refused (hP : Stable P) {s : State} (hs : P s) : P s.refused := by
  unfold State.refused
  split
  · exact hs
  · exact hP.announced hs _

theorem step_ok (hP : Stable P) {s t : State} (hs : P s) (hst : Machine.step.run s = .ok () t) : P t := by
  obtain ⟨i, x, hi, hx, rfl⟩ := Machine.step_ok hst
  refine hP.execute (s.announced i) i x (hP.announced hs i) ?_ ?_
  · rw [State.machine_announced, hi]
  · rw [State.machine_announced, State.store_announced, hx]

theorem step_error (hP : Stable P) {s t : State} {e : Error} (hs : P s)
    (hst : Machine.step.run s = .error e t) : P t := by
  obtain ⟨-, rfl⟩ := Machine.step_error hst
  exact hP.refused hs

theorem perform (hP : Stable P) {s : State} (hs : P s) (c : Call) : P (s.perform c).2 := by
  cases c with
  | step =>
    rw [State.perform_step]
    cases hst : Machine.step.run s with
    | ok _ t => exact hP.step_ok hs hst
    | error e t => exact hP.step_error hs hst
  | run =>
    have hrun := Machine.runFrom_invariant (fun _ _ => hP.step_ok) (fun _ _ _ => hP.step_error)
      s.machine.remaining 0 s hs
    rw [State.perform_run, Machine.run_run]
    cases hst : (Machine.runFrom 0 s.machine.remaining).run s with
    | ok _ t => rw [hst] at hrun; exact hrun
    | error e t => rw [hst] at hrun; exact hrun
  | write name x =>
    rw [State.perform_write]
    cases ha : s.machine.scope.admit name x with
    | ok _ => exact hP.assign s name x hs ha
    | error e => exact hs

end Stable

/-- **What is stable holds in every reachable state.** -/
theorem Reaches.invariant {P : State → Prop} (hP : Stable P) {s t : State} (hst : Reaches s t) (hs : P s) :
    P t := by
  obtain ⟨calls, rfl⟩ := hst
  induction calls generalizing s with
  | nil => exact hs
  | cons c cs ih => exact ih (hP.perform hs c)

namespace Machine

/-- So many successful steps lead from one state to another. -/
inductive Steps : Nat → State → State → Prop
  | zero (s : State) : Steps 0 s s
  | succ {n : Nat} {s t u : State} : step.run s = .ok () t → Steps n t u → Steps (n + 1) s u

/-- **A run that fails is some successful steps and a step that fails**, all within the bound. -/
theorem runFrom_error (left : Nat) : ∀ steps s e s', (runFrom steps left).run s = .error e s' →
    ∃ k t, Steps k s t ∧ step.run t = .error e s' ∧ k < left ∧ t.machine.isSpent (steps + k) = false := by
  induction left with
  | zero => intro steps s e s' h; cases h
  | succ left ih =>
    intro steps s e s' h
    rw [run_runFrom_succ] at h
    by_cases hspent : s.machine.isSpent steps = true
    · rw [if_pos hspent] at h; cases h
    · rw [if_neg hspent] at h
      cases hst : step.run s with
      | error e' t =>
        rw [hst] at h
        cases h
        -- the first step of the run fails, and no step comes before it
        exact ⟨0, s, .zero s, hst, Nat.succ_pos _, by simpa using hspent⟩
      | ok _ t =>
        rw [hst] at h
        obtain ⟨k, u, hk, hu, hlt, hfree⟩ := ih (steps + 1) t e s' h
        refine ⟨k + 1, u, .succ hst hk, hu, Nat.succ_lt_succ hlt, ?_⟩
        rw [← hfree, Nat.add_assoc, Nat.add_comm 1 k]

/-- A step keeps the program and the settings and moves to the next instruction. -/
theorem step_moves {s t : State} (hst : step.run s = .ok () t) :
    t.machine.settings = s.machine.settings ∧ t.machine.program = s.machine.program ∧
      t.machine.ip = s.machine.ip + 1 := by
  obtain ⟨i, x, -, -, rfl⟩ := step_ok hst
  obtain ⟨h1, h2, h3⟩ := deliver_settings (s.announced i) i x
  rw [State.machine_announced] at h1 h2 h3
  refine ⟨h1, h2, ?_⟩
  show ((s.announced i).deliver i x).machine.ip + 1 = s.machine.ip + 1
  rw [h3]

/-- **The loop of a run, until the machine has halted.** What a run counts down is what is left of the
program. -/
theorem run_runFrom_remaining (steps : Nat) (s : State) :
    (runFrom steps s.machine.remaining).run s =
      if s.machine.isHalted then .ok (.halted steps) s
      else if s.machine.isSpent steps then .ok (.stepLimit steps) s
      else
        match step.run s with
        | .ok () t => (runFrom (steps + 1) t.machine.remaining).run t
        | .error e t => .error e t := by
  by_cases hhalted : s.machine.program.length ≤ s.machine.ip
  · have hnone : s.machine.remaining = 0 := Nat.sub_eq_zero_of_le hhalted
    rw [isHalted, decide_eq_true hhalted, if_pos rfl, hnone]
    rfl
  · obtain ⟨left, hleft⟩ : ∃ left, s.machine.remaining = left + 1 :=
      Nat.exists_eq_succ_of_ne_zero (Nat.sub_ne_zero_of_lt (Nat.lt_of_not_le hhalted))
    rw [isHalted, decide_eq_false hhalted, if_neg Bool.false_ne_true, hleft, run_runFrom_succ]
    cases hst : step.run s with
    | error e t => rfl
    | ok _ t =>
      -- a step takes one instruction from those that are left
      have hone : t.machine.remaining = left := by
        obtain ⟨-, hprogram, hip⟩ := step_moves hst
        unfold remaining at hleft ⊢
        rw [hprogram, hip]
        omega
      simp only [hone]

theorem Steps.moves {k : Nat} {s t : State} (h : Steps k s t) :
    t.machine.settings = s.machine.settings ∧ t.machine.program = s.machine.program ∧
      t.machine.ip = s.machine.ip + k := by
  induction h with
  | zero s => exact ⟨rfl, rfl, rfl⟩
  | succ hst _ ih =>
    obtain ⟨h1, h2, h3⟩ := step_moves hst
    obtain ⟨h4, h5, h6⟩ := ih
    exact ⟨h4.trans h1, h5.trans h2, by omega⟩

end Machine

/-- A program whose last instruction moves a word into half of a register. -/
def Program.overfull : Program where
  declarations := [.make "count" .byte 200]
  code := [.binary .mov "ax" (.literal (-2)), .cwd, .binary .add "dl" (.name "count"), .binary .mov "dh" (.name "ax")]

end Octet
