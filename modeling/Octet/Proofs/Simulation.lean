import Mathlib.Control.Monad.Basic
import Octet.Proofs.Calls

/-!
# Two machines side by side

Two states are related, and what one machine does the other does too: their steps succeed or fail alike and
keep the relation, and so do writes from outside. Then every sequence of calls is answered alike, also with
reads between the calls. Which value an instruction computes depends only on what the names in it read.

* `Simulation`: a relation of two states that steps and writes keep, with equal results.
* `Simulation.session`: **what is kept by steps and writes is kept by every sequence of calls.**
* `Simulation.dialogue`: the same with reads between the calls.
* `Lockstep.step`: steps are alike if the next instructions are attempted alike.
* `Machine.compute_congr`: an instruction computes alike where the names in it read alike.
-/

namespace Octet

/-- A relation of two states that steps and writes to some names keep, with equal results. -/
structure Simulation (R : State → State → Prop) (writable : String → Prop) : Prop where
  remaining : ∀ s t, R s t → s.machine.remaining = t.machine.remaining
  bound : ∀ s t, R s t → s.machine.settings.maxSteps = t.machine.settings.maxSteps
  step : ∀ s t, R s t →
    (∃ s' t', Machine.step.run s = .ok () s' ∧ Machine.step.run t = .ok () t' ∧ R s' t') ∨
      ∃ e s' t', Machine.step.run s = .error e s' ∧ Machine.step.run t = .error e t' ∧ R s' t'
  admission : ∀ s t name x, R s t → writable name →
    s.machine.scope.admit name x = t.machine.scope.admit name x
  write : ∀ s t name x, R s t → writable name → s.machine.scope.admit name x = .ok () →
    R (s.assign name x) (t.assign name x)

namespace Simulation

variable {R : State → State → Prop} {writable : String → Prop}

theorem runFrom (hR : Simulation R writable) (left : Nat) : ∀ (steps : Nat) (s t : State), R s t →
    (∃ o s' t', (Machine.runFrom steps left).run s = .ok o s' ∧ (Machine.runFrom steps left).run t = .ok o t' ∧
      R s' t') ∨
    ∃ e s' t', (Machine.runFrom steps left).run s = .error e s' ∧
      (Machine.runFrom steps left).run t = .error e t' ∧ R s' t' := by
  induction left with
  | zero => intro steps s t hst; exact Or.inl ⟨_, s, t, rfl, rfl, hst⟩
  | succ left ih =>
    intro steps s t hst
    have hspent : s.machine.isSpent steps = t.machine.isSpent steps := by
      unfold Machine.isSpent
      rw [hR.bound s t hst]
    rw [Machine.run_runFrom_succ, Machine.run_runFrom_succ, hspent]
    split
    · exact Or.inl ⟨_, s, t, rfl, rfl, hst⟩
    · obtain ⟨s', t', hs, ht, hst'⟩ | ⟨e, s', t', hs, ht, hst'⟩ := hR.step s t hst
      · rw [hs, ht]
        exact ih (steps + 1) s' t' hst'
      · rw [hs, ht]
        exact Or.inr ⟨e, s', t', rfl, rfl, hst'⟩

theorem perform (hR : Simulation R writable) {s t : State} (hst : R s t) (c : Call)
    (hc : ∀ name x, c = .write name x → writable name) :
    (s.perform c).1 = (t.perform c).1 ∧ R (s.perform c).2 (t.perform c).2 := by
  cases c with
  | step =>
    rw [State.perform_step, State.perform_step]
    obtain ⟨s', t', hs, ht, hst'⟩ | ⟨e, s', t', hs, ht, hst'⟩ := hR.step s t hst
    · rw [hs, ht]; exact ⟨rfl, hst'⟩
    · rw [hs, ht]; exact ⟨rfl, hst'⟩
  | run =>
    rw [State.perform_run, State.perform_run, Machine.run_run, Machine.run_run, hR.remaining s t hst]
    obtain ⟨o, s', t', hs, ht, hst'⟩ | ⟨e, s', t', hs, ht, hst'⟩ := hR.runFrom t.machine.remaining 0 s t hst
    · rw [hs, ht]; exact ⟨rfl, hst'⟩
    · rw [hs, ht]; exact ⟨rfl, hst'⟩
  | write name x =>
    have hn := hc name x rfl
    rw [State.perform_write, State.perform_write, ← hR.admission s t name x hst hn]
    cases ha : s.machine.scope.admit name x with
    | ok _ => exact ⟨rfl, hR.write s t name x hst hn ha⟩
    | error e => exact ⟨rfl, hst⟩

/-- What is kept by steps and writes is kept by every sequence of calls. -/
theorem session (hR : Simulation R writable) {s t : State} (hst : R s t) (calls : List Call)
    (hcalls : ∀ name x, .write name x ∈ calls → writable name) :
    (session State.perform s calls).1 = (session State.perform t calls).1 ∧
      R (session State.perform s calls).2 (session State.perform t calls).2 := by
  refine session_related_of_mem calls s t hst ?_
  intro s t c hc hst
  refine hR.perform hst c ?_
  rintro name x rfl
  exact hcalls name x hc

end Simulation

/-- A relation of two states whose next instructions are attempted with one result and, where they succeed,
keep the relation; what has been logged does not matter to it. -/
structure Lockstep (R : State → State → Prop) : Prop where
  log : ∀ s t log log', R s t → R { s with log } { t with log := log' }
  next : ∀ s t, R s t →
    (s.machine.current? = none ∧ t.machine.current? = none ∧ s.machine.ip = t.machine.ip ∧
      s.machine.program.length = t.machine.program.length) ∨
    ∃ i j, s.machine.current? = some i ∧ t.machine.current? = some j ∧
      s.machine.attempt s.store i = t.machine.attempt t.store j ∧
      ∀ x, s.machine.attempt s.store i = .ok x → R ((s.deliver i x).retired i) ((t.deliver j x).retired j)

namespace Lockstep

variable {R : State → State → Prop} {s t : State}

theorem announced (hR : Lockstep R) (hst : R s t) (i j : Instruction) : R (s.announced i) (t.announced j) := by
  have hlog : ∀ (u : State) k, ∃ log, u.announced k = { u with log } := by
    intro u k
    unfold State.announced
    split
    · exact ⟨_, rfl⟩
    · exact ⟨u.log, rfl⟩
  obtain ⟨log, hs⟩ := hlog s i
  obtain ⟨log', ht⟩ := hlog t j
  rw [hs, ht]
  exact hR.log s t log log' hst

/-- **Steps succeed or fail alike and keep the relation.** -/
theorem step (hR : Lockstep R) (hst : R s t) :
    (∃ s' t', Machine.step.run s = .ok () s' ∧ Machine.step.run t = .ok () t' ∧ R s' t') ∨
      ∃ e s' t', Machine.step.run s = .error e s' ∧ Machine.step.run t = .error e t' ∧ R s' t' := by
  rw [Machine.run_step, Machine.run_step]
  unfold Machine.next State.refused
  obtain ⟨hi, hj, hip, hlength⟩ | ⟨i, j, hi, hj, hsame, hkeep⟩ := hR.next s t hst
  · rw [hi, hj, hip, hlength]
    exact Or.inr ⟨_, _, _, rfl, rfl, hst⟩
  · rw [hi, hj]
    have hannounced := hR.announced hst i j
    cases hx : s.machine.attempt s.store i with
    | error e =>
      rw [hx] at hsame
      simp only [hx, ← hsame]
      exact Or.inr ⟨_, _, _, rfl, rfl, hannounced⟩
    | ok x =>
      rw [hx] at hsame
      simp only [hx, ← hsame]
      refine Or.inl ⟨_, _, rfl, rfl, ?_⟩
      -- the announced states are related too, and their next instructions are the same
      obtain ⟨hi', -⟩ | ⟨i', j', hi', hj', -, hkeep'⟩ := hR.next _ _ hannounced
      · rw [State.machine_announced, hi] at hi'
        cases hi'
      · rw [State.machine_announced, hi] at hi'
        rw [State.machine_announced, hj] at hj'
        cases hi'
        cases hj'
        refine hkeep' x ?_
        rw [State.machine_announced, State.store_announced, hx]

end Lockstep

/-- The names that stand in an instruction. -/
def Instruction.names : Instruction → List String
  | .binary _ target (.name n) => [target, n]
  | .binary _ target (.literal _) => [target]
  | .cbw | .cwd => []

/-- An operation looks at its target and its source by reading them. -/
theorem Machine.compute_binary (m : Machine) (s : Store) (operation : Operation) (target : String) (source : Operand) :
    m.compute s (.binary operation target source) =
      m.scope.read s target >>= fun y => m.scope.resolve s source y.width.bytes >>= operation.apply y := by
  simp only [Machine.compute, Scope.read]
  cases m.scope.get target <;> rfl

/-- Whether a name admits a value can be told by reading it. -/
theorem Scope.admit_eq (scope : Scope) (s : Store) (name : String) (x : Value) :
    scope.admit name x = scope.read s name >>= fun y =>
      if x.width = y.width then .ok () else .error (.widthMismatch y.width.bytes x.width.bytes) := by
  unfold Scope.admit Scope.read
  cases scope.get name <;> rfl

/-- **An instruction computes alike where the names in it read alike**, and with them `al` and `ax`, which
the extensions read without naming them. -/
theorem Machine.compute_congr {m m' : Machine} {s s' : Store} {i : Instruction}
    (hal : m.scope.read s Register.al.name = m'.scope.read s' Register.al.name)
    (hax : m.scope.read s Register.ax.name = m'.scope.read s' Register.ax.name)
    (hnames : ∀ name ∈ i.names, m.scope.read s name = m'.scope.read s' name) :
    m.compute s i = m'.compute s' i := by
  cases i with
  | cbw =>
    show m.scope.read s Register.al.name >>= _ = m'.scope.read s' Register.al.name >>= _
    rw [hal]
  | cwd =>
    show m.scope.read s Register.ax.name >>= _ = m'.scope.read s' Register.ax.name >>= _
    rw [hax]
  | binary operation target source =>
    rw [Machine.compute_binary, Machine.compute_binary]
    cases source with
    | literal z => rw [hnames target List.mem_cons_self]; rfl
    | name n =>
      have hsource : ∀ width, m.scope.resolve s (.name n) width = m'.scope.resolve s' (.name n) width :=
        fun _ => hnames n (List.mem_cons_of_mem _ List.mem_cons_self)
      rw [hnames target List.mem_cons_self]
      simp only [hsource]

/-- What can be done with a machine from outside: a call, or a read. -/
inductive Interaction where
  | call (c : Call)
  | read (name : String)
  deriving DecidableEq, Repr

/-- What an interaction gives. -/
inductive Reaction where
  | answer (a : Answer)
  | value (x : Except Error Value)

/-- What an interaction gives, and the state after it. A read changes nothing. -/
def State.react (s : State) : Interaction → Reaction × State
  | .call c => (.answer (s.perform c).1, (s.perform c).2)
  | .read name => (.value (s.machine.read s.store name), s)

/-- What interactions give that follow one another, and the state after the last one. -/
def dialogue (s : State) : List Interaction → List Reaction × State
  | [] => ([], s)
  | r :: rs =>
    let rest := dialogue (s.react r).2 rs
    ((s.react r).1 :: rest.1, rest.2)

/-- **Machines that simulate each other and read alike react alike to every sequence of interactions.** -/
theorem Simulation.dialogue {R : State → State → Prop} (hR : Simulation R fun _ => True)
    (hread : ∀ s t name, R s t → s.machine.read s.store name = t.machine.read t.store name)
    (interactions : List Interaction) : ∀ s t, R s t →
      (dialogue s interactions).1 = (dialogue t interactions).1 ∧
        R (dialogue s interactions).2 (dialogue t interactions).2 := by
  induction interactions with
  | nil => intro s t hst; exact ⟨rfl, hst⟩
  | cons r rs ih =>
    intro s t hst
    have hreaction : (s.react r).1 = (t.react r).1 ∧ R (s.react r).2 (t.react r).2 := by
      cases r with
      | call c =>
        obtain ⟨hanswer, hst'⟩ := hR.perform hst c fun _ _ _ => trivial
        exact ⟨congrArg Reaction.answer hanswer, hst'⟩
      | read name => exact ⟨congrArg Reaction.value (hread s t name hst), hst⟩
    obtain ⟨hrest, hend⟩ := ih _ _ hreaction.2
    simp only [Octet.dialogue]
    exact ⟨by rw [hreaction.1, hrest], hend⟩

end Octet
