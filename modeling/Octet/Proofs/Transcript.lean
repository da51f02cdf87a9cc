import Octet.Proofs.Aliasing
import Octet.Proofs.Modes

/-!
# The log as a transcript

A machine that traces logs each instruction before it tries it, so an instruction that succeeds is logged once and
one that fails once for each attempt. A `cwd` that rebinds adds an entry after its own, with the value that `dx`
reads from then on. Nothing else that a call does is logged. The log is therefore the list of attempts, written
out, and whether a machine traces shows in the log alone.

* `State.attempts`: what a call attempts, told by its answer and by how far it gets.
* `Machine.step_logs`, `Machine.Steps.logs`: what one step and several steps add to the log.
* `State.perform_logs`: **a call logs what it attempts.**
* `State.retired_attempts`: **what a call executes, it executes once and in order.**
* `Tracing.simulation`: whether a machine traces does not matter to what it does.
* `log_transcript`: **what every sequence of calls logs, and that tracing changes nothing else.**
-/

namespace Octet

/-- An instruction that a machine has tried to execute, and the state right after it if it has succeeded. -/
structure Attempt where
  ip : Nat
  instruction : Instruction
  after : Option State

namespace Attempt

/-- Whether the instruction has been executed. -/
def retired (a : Attempt) : Bool :=
  a.after.isSome

/-- The state right after an executed `cwd`. -/
def extended (a : Attempt) : Option State :=
  if a.instruction = .cwd then a.after else none

/-- The entry for the instruction. -/
def traced (settings : Settings) (a : Attempt) : List Event :=
  if settings.trace then [.step a.ip a.instruction] else []

/-- The entry for a new block of `dx`, with what `dx` reads right after the instruction. -/
def warned (settings : Settings) (a : Attempt) : List Event :=
  match a.extended with
  | some t => if settings.cwdMode = .rebind then (t.machine.read t.store "dx").toOption.toList.map .detached else []
  | none => []

/-- The entries for an attempt. -/
def events (settings : Settings) (a : Attempt) : List Event :=
  a.traced settings ++ a.warned settings

end Attempt

namespace State

/-- The state after some single steps. -/
def after (s : State) (steps : Nat) : State :=
  (session State.perform s (List.replicate steps .step)).2

/-- The next `k` instructions, executed one after the other. -/
def passed (s : State) (k : Nat) : List Attempt :=
  ((s.machine.program.code.drop s.machine.ip).take k).mapIdx fun j i => ⟨s.machine.ip + j, i, some (s.after (j + 1))⟩

/-- The next instruction, if there is one, after it has failed. -/
def stopped (s : State) : List Attempt :=
  s.machine.current?.toList.map fun i => ⟨s.machine.ip, i, none⟩

/-- What a call attempts: the instructions from the old index to the new one, and if the call fails the one at
the new index. A write attempts none. -/
def attempts (s : State) : Call → List Attempt
  | .write _ _ => []
  | c =>
    match s.perform c with
    | (.ok _, t) => s.passed (t.machine.ip - s.machine.ip)
    | (.error _, t) => s.passed (t.machine.ip - s.machine.ip) ++ t.stopped

/-- What a sequence of calls attempts. -/
def attempted (s : State) : List Call → List Attempt
  | [] => []
  | c :: cs => s.attempts c ++ (s.perform c).2.attempted cs

theorem log_announced (s : State) (i : Instruction) (after : Option State) :
    (s.announced i).log.toList = s.log.toList ++ Attempt.traced s.machine.settings ⟨s.machine.ip, i, after⟩ := by
  unfold announced Attempt.traced
  split
  · exact Array.toList_push
  · exact (List.append_nil _).symm

theorem log_assign (s : State) (name : String) (x : Value) : (s.assign name x).log = s.log := by
  unfold assign
  split <;> rfl

theorem log_deliver (s : State) (i : Instruction) (x : Value) :
    (s.deliver i x).log.toList = s.log.toList ++ if s.machine.rebinds i then [.detached x] else [] := by
  unfold deliver
  split
  · exact Array.toList_push
  · rw [log_assign, List.append_nil]

/-- A failed step logs the instruction that it has tried, if there is one. -/
theorem log_refused (s : State) :
    s.refused.log.toList = s.log.toList ++ s.stopped.flatMap (Attempt.events s.machine.settings) := by
  unfold refused stopped
  cases hi : s.machine.current? with
  | none => exact (List.append_nil _).symm
  | some i =>
    have hwarned : Attempt.warned s.machine.settings ⟨s.machine.ip, i, none⟩ = [] := by
      unfold Attempt.warned Attempt.extended
      rw [ite_self]
    rw [Option.toList_some, List.map_singleton, List.flatMap_singleton, Attempt.events, hwarned, List.append_nil]
    exact s.log_announced i none

/-- After an instruction that rebinds, `dx` reads the value that the new block was made for. -/
theorem read_deliver_of_rebinds {s : State} {i : Instruction} (hr : s.machine.rebinds i = true) (x : Value) :
    ((s.deliver i x).retired i).machine.read ((s.deliver i x).retired i).store "dx" = .ok x := by
  have hdeliver : s.deliver i x = s.detachDx x := if_pos hr
  rw [hdeliver]
  show ((s.machine.scope.bind Register.dx.name (View.detached s.store x).1).get Register.dx.name).map
    (View.read (View.detached s.store x).2) = .ok x
  unfold Scope.get
  rw [Scope.lookup?_bind, if_pos rfl]
  exact congrArg Except.ok (View.read_detached s.store x)

theorem warned_deliver (s : State) (ip : Nat) (i : Instruction) (x : Value) :
    Attempt.warned s.machine.settings ⟨ip, i, some ((s.deliver i x).retired i)⟩ =
      if s.machine.rebinds i then [.detached x] else [] := by
  unfold Attempt.warned Attempt.extended
  by_cases hi : i = .cwd
  · have hiff : s.machine.rebinds i = true ↔ s.machine.settings.cwdMode = .rebind := by
      rw [hi, Machine.rebinds_cwd, decide_eq_true_iff]
    by_cases hr : s.machine.rebinds i = true
    · simp only [if_pos hi, if_pos (hiff.1 hr), if_pos hr, read_deliver_of_rebinds hr]
      rfl
    · simp only [if_pos hi, if_neg (mt hiff.2 hr), if_neg hr]
  · have hr : ¬ s.machine.rebinds i = true := fun hr => hi (Machine.eq_cwd_of_rebinds hr)
    simp only [if_neg hi, if_neg hr]

end State

namespace Machine

variable {s t : State} {k : Nat}

/-- **A step logs its instruction, and the new block of `dx` if it makes one.** -/
theorem step_logs (hst : step.run s = .ok () t) :
    ∃ i, s.machine.current? = some i ∧
      t.log.toList = s.log.toList ++ Attempt.events s.machine.settings ⟨s.machine.ip, i, some t⟩ := by
  obtain ⟨i, x, hi, -, rfl⟩ := step_ok hst
  refine ⟨i, hi, ?_⟩
  have hwarned := (s.announced i).warned_deliver s.machine.ip i x
  have hdeliver := (s.announced i).log_deliver i x
  rw [State.machine_announced] at hwarned hdeliver
  rw [Attempt.events, hwarned, ← List.append_assoc]
  exact hdeliver.trans (congrArg (· ++ _) (s.log_announced i _))

/-- **Steps log what they execute**, one instruction after the other. -/
theorem Steps.logs (h : Steps k s t) :
    t.log.toList = s.log.toList ++ (s.passed k).flatMap (Attempt.events s.machine.settings) := by
  induction h with
  | zero s => simp [State.passed]
  | @succ k s v t hst _ ih =>
    obtain ⟨i, hi, hlog⟩ := step_logs hst
    obtain ⟨hsettings, hprogram, hip⟩ := step_moves hst
    -- the state after the first step is `v`, and the others count from there
    have hafter : ∀ j, s.after (j + 1) = v.after j := by
      intro j
      unfold State.after
      rw [List.replicate_succ, session, State.perform_step, hst]
    have hpassed : s.passed (k + 1) = ⟨s.machine.ip, i, some v⟩ :: v.passed k := by
      unfold State.passed
      rw [drop_code hi, hprogram, hip, List.take_succ_cons, List.mapIdx_cons]
      simp only [hafter, Nat.add_zero, Nat.add_assoc, Nat.add_comm 1]
      rfl
    rw [ih, hlog, hsettings, hpassed, List.flatMap_cons, List.append_assoc]

end Machine

theorem Call.cases (c : Call) : (c = .step ∨ c = .run) ∨ ∃ name x, c = .write name x := by
  cases c with
  | step => exact Or.inl (Or.inl rfl)
  | run => exact Or.inl (Or.inr rfl)
  | write name x => exact Or.inr ⟨name, x, rfl⟩

namespace State

variable {s t : State} {c : Call}

/-- A step or a run attempts what its steps execute and, if it fails, one instruction more. -/
theorem attempts_cases (s : State) (hc : c = .step ∨ c = .run) :
    ∃ k t, Machine.Steps k s t ∧
      (((s.perform c).2 = t ∧ s.attempts c = s.passed k) ∨
        (s.perform c).2 = t.refused ∧ s.attempts c = s.passed k ++ t.stopped) := by
  have hattempts : s.attempts c =
      match s.perform c with
      | (.ok _, t) => s.passed (t.machine.ip - s.machine.ip)
      | (.error _, t) => s.passed (t.machine.ip - s.machine.ip) ++ t.stopped := by
    rcases hc with rfl | rfl <;> rfl
  obtain ⟨k, t, hk, hanswer⟩ := s.perform_answers hc
  have hip : t.machine.ip - s.machine.ip = k := by
    rw [hk.moves.2.2, Nat.add_sub_cancel_left]
  refine ⟨k, t, hk, ?_⟩
  rw [hattempts]
  obtain ⟨reply, hanswer⟩ | ⟨e, hanswer⟩ := hanswer
  · rw [hanswer]
    exact Or.inl ⟨rfl, congrArg s.passed hip⟩
  · have hstopped : t.refused.stopped = t.stopped := by
      unfold stopped
      rw [machine_refused]
    rw [hanswer]
    refine Or.inr ⟨rfl, ?_⟩
    show s.passed (t.refused.machine.ip - s.machine.ip) ++ t.refused.stopped = s.passed k ++ t.stopped
    rw [machine_refused, hip, hstopped]

theorem machine_perform_write (s : State) (name : String) (x : Value) :
    (s.perform (.write name x)).2.machine = s.machine := by
  rw [perform_write]
  cases s.machine.scope.admit name x with
  | ok _ => exact s.machine_assign name x
  | error e => rfl

theorem log_perform_write (s : State) (name : String) (x : Value) :
    (s.perform (.write name x)).2.log = s.log := by
  rw [perform_write]
  cases s.machine.scope.admit name x with
  | ok _ => exact s.log_assign name x
  | error e => rfl

/-- **A call logs what it attempts.** -/
theorem perform_logs (s : State) (c : Call) :
    (s.perform c).2.log.toList = s.log.toList ++ (s.attempts c).flatMap (Attempt.events s.machine.settings) := by
  obtain hc | ⟨name, x, rfl⟩ := c.cases
  · obtain ⟨k, t, hk, ⟨hend, hattempts⟩ | ⟨hend, hattempts⟩⟩ := s.attempts_cases hc
    · rw [hend, hattempts]
      exact hk.logs
    · rw [hend, hattempts, List.flatMap_append, ← List.append_assoc, ← hk.logs, ← hk.moves.1]
      exact t.log_refused
  · rw [log_perform_write]
    exact (List.append_nil _).symm

/-- What a sequence of calls logs. -/
theorem session_logs {settings : Settings} (calls : List Call) : ∀ {s : State}, s.machine.settings = settings →
    (session perform s calls).2.log.toList =
      s.log.toList ++ (s.attempted calls).flatMap (Attempt.events settings) := by
  induction calls with
  | nil => intro s _; exact (List.append_nil _).symm
  | cons c cs ih =>
    intro s hs
    have hnext := (settings_stable settings).perform hs c
    rw [session, ih hnext, perform_logs, hs, attempted, List.flatMap_append, List.append_assoc]

theorem retired_passed (s : State) (k : Nat) :
    ((s.passed k).filter Attempt.retired).map (fun a => (a.instruction, a.ip)) =
      ((s.machine.program.code.drop s.machine.ip).take k).zipIdx s.machine.ip := by
  have hall : ∀ a ∈ s.passed k, a.retired = true := by
    intro a ha
    obtain ⟨j, hj, rfl⟩ := List.mem_mapIdx.1 ha
    rfl
  rw [List.filter_eq_self.2 hall]
  apply List.ext_getElem?
  intro j
  rw [passed, List.getElem?_map, List.getElem?_mapIdx, List.getElem?_zipIdx, Option.map_map]
  rfl

theorem retired_stopped (s : State) : s.stopped.filter Attempt.retired = [] := by
  rw [stopped, List.filter_map]
  exact List.map_eq_nil_iff.2 (List.filter_eq_nil_iff.2 fun _ _ => Bool.false_ne_true)

/-- **What a call executes, it executes once and in order**: its successful attempts lead from the instructions
before the old index to those before the new one. -/
theorem retired_attempts (hip : s.machine.ip ≤ s.machine.program.length) (c : Call) :
    (s.machine.program.code.take s.machine.ip).zipIdx ++
        ((s.attempts c).filter Attempt.retired).map (fun a => (a.instruction, a.ip)) =
      (s.machine.program.code.take (s.perform c).2.machine.ip).zipIdx := by
  obtain hc | ⟨name, x, rfl⟩ := c.cases
  · obtain ⟨k, t, hk, hend⟩ := s.attempts_cases hc
    have hretired : (s.attempts c).filter Attempt.retired = (s.passed k).filter Attempt.retired := by
      obtain ⟨-, hattempts⟩ | ⟨-, hattempts⟩ := hend
      · rw [hattempts]
      · rw [hattempts, List.filter_append, retired_stopped, List.append_nil]
    have hmachine : (s.perform c).2.machine = t.machine := by
      obtain ⟨hend, -⟩ | ⟨hend, -⟩ := hend
      · rw [hend]
      · rw [hend, machine_refused]
    have hlength : (s.machine.program.code.take s.machine.ip).length = s.machine.ip := List.length_take_of_le hip
    rw [hretired, retired_passed, hmachine, hk.moves.2.2, List.take_add, List.zipIdx_append, hlength, Nat.zero_add]
  · rw [machine_perform_write]
    exact List.append_nil _

/-- What a sequence of calls executes, it executes once and in order. -/
theorem retired_attempted {p : Program} (calls : List Call) : ∀ {s : State}, Typed p s.machine →
    s.machine.ip ≤ s.machine.program.length →
    (p.code.take s.machine.ip).zipIdx ++
        ((s.attempted calls).filter Attempt.retired).map (fun a => (a.instruction, a.ip)) =
      (p.code.take (session perform s calls).2.machine.ip).zipIdx := by
  induction calls with
  | nil => intro s _ _; exact List.append_nil _
  | cons c cs ih =>
    intro s hs hip
    have hfirst := retired_attempts hip c
    have hrest := ih ((typed_stable p).perform hs c) (ip_stable.perform hip c)
    rw [hs.program] at hfirst
    rw [attempted, List.filter_append, List.map_append, ← List.append_assoc, hfirst, hrest, session]

/-- The state right after an attempt is one that calls lead to. -/
theorem reaches_of_attempt {a : Attempt} (ha : a ∈ s.attempts c) (hafter : a.after = some t) : Reaches s t := by
  have hpassed : ∀ k, a ∈ s.passed k → Reaches s t := by
    intro k hmem
    obtain ⟨j, hj, rfl⟩ := List.mem_mapIdx.1 hmem
    cases hafter
    exact ⟨_, rfl⟩
  have hstopped : ∀ u : State, a ∈ u.stopped → Reaches s t := by
    intro u hmem
    obtain ⟨i, -, rfl⟩ := List.mem_map.1 hmem
    cases hafter
  obtain hc | ⟨name, x, rfl⟩ := c.cases
  · obtain ⟨k, u, -, ⟨-, hattempts⟩ | ⟨-, hattempts⟩⟩ := s.attempts_cases hc
    · exact hpassed k (hattempts ▸ ha)
    · rw [hattempts, List.mem_append] at ha
      exact ha.elim (hpassed k) (hstopped u)
  · cases ha

/-- What is stable holds right after every attempt of a sequence of calls. -/
theorem stable_attempted {P : State → Prop} (hP : Stable P) (calls : List Call) : ∀ {s : State}, P s →
    ∀ a ∈ s.attempted calls, ∀ t, a.after = some t → P t := by
  induction calls with
  | nil => intro s _ a ha; cases ha
  | cons c cs ih =>
    intro s hs a ha t hafter
    rw [attempted, List.mem_append] at ha
    rcases ha with ha | ha
    · exact (reaches_of_attempt ha hafter).invariant hP hs
    · exact ih (hP.perform hs c) a ha t hafter

end State

namespace Attempt

variable (settings : Settings) (a : Attempt)

theorem level_traced : ∀ e ∈ a.traced settings, e.level = .trace := by
  intro e he
  unfold traced at he
  split at he
  · rw [List.mem_singleton.1 he]
    rfl
  · cases he

theorem level_warned : ∀ e ∈ a.warned settings, e.level = .warn := by
  intro e he
  unfold warned at he
  split at he
  · split at he
    · obtain ⟨x, -, rfl⟩ := List.mem_map.1 he
      rfl
    · cases he
  · cases he

theorem filter_trace_events : (a.events settings).filter (fun e => e.level = .trace) = a.traced settings := by
  have hall : (a.traced settings).filter (fun e => e.level = .trace) = a.traced settings :=
    List.filter_eq_self.2 fun e he => decide_eq_true (a.level_traced settings e he)
  have hnone : (a.warned settings).filter (fun e => e.level = .trace) = [] := by
    refine List.filter_eq_nil_iff.2 fun e he => ?_
    rw [a.level_warned settings e he]
    decide
  rw [events, List.filter_append, hall, hnone, List.append_nil]

theorem filter_warn_events : (a.events settings).filter (fun e => e.level = .warn) = a.warned settings := by
  have hnone : (a.traced settings).filter (fun e => e.level = .warn) = [] := by
    refine List.filter_eq_nil_iff.2 fun e he => ?_
    rw [a.level_traced settings e he]
    decide
  have hall : (a.warned settings).filter (fun e => e.level = .warn) = a.warned settings :=
    List.filter_eq_self.2 fun e he => decide_eq_true (a.level_warned settings e he)
  rw [events, List.filter_append, hnone, hall, List.nil_append]

/-- **A machine that traces has one entry for each attempt**, and one that does not has none. -/
theorem fields_trace (attempts : List Attempt) :
    ((attempts.flatMap (events settings)).filter fun e => e.level = .trace).map Event.fields =
      if settings.trace then
        attempts.map fun a => [("ip", Numeral.decimal a.ip), ("instruction", a.instruction.text)]
      else [] := by
  rw [List.filter_flatMap]
  simp only [filter_trace_events]
  unfold traced
  split
  · rw [List.map_flatMap]
    exact List.map_eq_flatMap.symm
  · rw [List.flatMap_eq_nil_iff.2 fun _ _ => rfl]
    rfl

/-- A machine that writes through warns of nothing. -/
theorem warned_of_writeThrough (hmode : settings.cwdMode = .writeThrough) (attempts : List Attempt) :
    ((attempts.flatMap (events settings)).filter fun e => e.level = .warn) = [] := by
  rw [List.filter_flatMap]
  simp only [filter_warn_events]
  refine List.flatMap_eq_nil_iff.2 fun a _ => ?_
  unfold warned
  rw [hmode]
  cases a.extended with
  | none => rfl
  | some t => rfl

/-- **A machine that rebinds warns once of each executed `cwd`**, with what `dx` reads right after it. -/
theorem fields_warn (hmode : settings.cwdMode = .rebind) (attempts : List Attempt) :
    (∀ a ∈ attempts, ∀ t, a.after = some t → ∃ x, t.machine.read t.store "dx" = .ok x) →
    ((attempts.flatMap (events settings)).filter fun e => e.level = .warn).map (fun e => .ok e.fields) =
      (attempts.filterMap extended).map fun t =>
        (t.machine.read t.store "dx").map fun x => [("value", Numeral.integer x.signed)] := by
  rw [List.filter_flatMap]
  simp only [filter_warn_events]
  induction attempts with
  | nil => intro _; rfl
  | cons a attempts ih =>
    intro hread
    have hrest := ih fun b hb => hread b (List.mem_cons_of_mem _ hb)
    rw [List.flatMap_cons, List.map_append, hrest]
    cases ha : a.extended with
    | none =>
      have hwarned : a.warned settings = [] := by
        unfold warned
        rw [ha]
      rw [List.filterMap_cons_none ha, hwarned]
      rfl
    | some t =>
      have hafter : a.after = some t := by
        unfold extended at ha
        split at ha
        · exact ha
        · cases ha
      obtain ⟨x, hx⟩ := hread a List.mem_cons_self t hafter
      have hwarned : a.warned settings = [.detached x] := by
        unfold warned
        simp only [ha, hmode, if_true, hx]
        rfl
      rw [List.filterMap_cons_some ha, List.map_cons, hx, hwarned]
      rfl

end Attempt

/-- The machine with another choice of whether it traces. -/
def Machine.tracing (m : Machine) (trace : Bool) : Machine :=
  { m with settings.trace := trace }

/-- Two states with the same bytes, and with machines that differ in whether they trace. -/
structure Tracing (trace : Bool) (s t : State) : Prop where
  store : t.store = s.store
  machine : t.machine = s.machine.tracing trace

namespace Tracing

variable {trace : Bool} {s t : State}

theorem assign (h : Tracing trace s t) (name : String) (x : Value) :
    Tracing trace (s.assign name x) (t.assign name x) := by
  have hlookup : t.machine.scope.lookup? name = s.machine.scope.lookup? name := by rw [h.machine]; rfl
  unfold State.assign
  rw [hlookup]
  split
  · exact ⟨by simp only [h.store], h.machine⟩
  · exact h

theorem deliver (h : Tracing trace s t) (i : Instruction) (x : Value) :
    Tracing trace ((s.deliver i x).retired i) ((t.deliver i x).retired i) := by
  have hrebinds : t.machine.rebinds i = s.machine.rebinds i := by rw [h.machine]; rfl
  unfold State.deliver
  rw [hrebinds]
  split
  · refine ⟨?_, ?_⟩
    · show (View.detached t.store x).2 = (View.detached s.store x).2
      rw [h.store]
    · show ({ t.machine with scope := t.machine.scope.bind _ (View.detached t.store x).1 } : Machine).retire i.opcode = _
      rw [h.store, h.machine]
      rfl
  · obtain ⟨hstore, hmachine⟩ := h.assign i.target x
    exact ⟨hstore, congrArg (Machine.retire · i.opcode) hmachine⟩

theorem lockstep (trace : Bool) : Lockstep (Tracing trace) where
  log _ _ _ _ h := ⟨h.store, h.machine⟩
  next s t h := by
    have hcurrent : t.machine.current? = s.machine.current? := by rw [h.machine]; rfl
    cases hi : s.machine.current? with
    | none =>
      refine Or.inl ⟨rfl, hcurrent.trans hi, ?_, ?_⟩
      · rw [h.machine]; rfl
      · rw [h.machine]; rfl
    | some i =>
      refine Or.inr ⟨i, i, rfl, hcurrent.trans hi, ?_, fun x _ => h.deliver i x⟩
      rw [h.store, h.machine]
      rfl

/-- **Whether a machine traces does not matter to what it does.** -/
theorem simulation (trace : Bool) : Simulation (Tracing trace) fun _ => True where
  remaining s t h := by rw [h.machine]; rfl
  bound s t h := by rw [h.machine]; rfl
  step s t h := (lockstep trace).step h
  admission s t name x h _ := by rw [h.machine]; rfl
  write s t name x h _ _ := h.assign name x

end Tracing

/-- A program is loaded alike whether it will be traced or not. -/
theorem Machine.load_tracing {p : Program} {settings : Settings} {w w' : World} {m : Machine}
    (hload : (Machine.load p settings).run w = .ok m w') (trace : Bool) :
    (Machine.load p { settings with trace }).run w = .ok (m.tracing trace) w' := by
  rw [Machine.run_load] at hload ⊢
  split at hload
  case h_1 scope w₁ hscope =>
    cases hload
    rfl
  case h_2 => cases hload

/-- **What a machine logs, and that tracing changes nothing else.** After a program has been loaded, every sequence
of calls appends the entries of its attempts to the log and nothing else: for each attempt the entry for the
instruction, and right after it the one for `dx` if there is one. The attempts that succeed are the instructions
before the index, once each and in order. A machine that traces has one entry with the index and the text of the
instruction for each attempt, and one that does not has none. A machine that rebinds warns once for each executed
`cwd`, with the signed value that `dx` reads right after it, and one that writes through does not warn. A machine
that differs in whether it traces answers alike and is in the same state. -/
theorem log_transcript {p : Program} {settings : Settings} {w w' : World} {m : Machine}
    (hload : (Machine.load p settings).run w = .ok m w') (calls : List Call) :
    let s := (session State.perform ⟨w', m⟩ calls).2
    let attempts := State.attempted ⟨w', m⟩ calls
    let entries := attempts.flatMap (Attempt.events settings)
    s.log.toList = w'.log.toList ++ entries ∧
      (attempts.filter Attempt.retired).map (fun a => (a.instruction, a.ip)) = (p.code.take s.machine.ip).zipIdx ∧
      (entries.filter fun e => e.level = .trace).map Event.fields =
        (if settings.trace then
          attempts.map fun a => [("ip", Numeral.decimal a.ip), ("instruction", a.instruction.text)]
        else []) ∧
      (settings.cwdMode = .rebind →
        (entries.filter fun e => e.level = .warn).map (fun e => .ok e.fields) =
          (attempts.filterMap Attempt.extended).map fun t =>
            (t.machine.read t.store "dx").map fun x => [("value", Numeral.integer x.signed)]) ∧
      (settings.cwdMode = .writeThrough → (entries.filter fun e => e.level = .warn) = []) ∧
      ∀ trace, ∃ m₂, (Machine.load p { settings with trace }).run w = .ok m₂ w' ∧
        let t := session State.perform ⟨w', m₂⟩ calls
        t.1 = (session State.perform ⟨w', m⟩ calls).1 ∧ t.2.store = s.store ∧
          t.2.machine = { s.machine with settings.trace := trace } := by
  intro s attempts entries
  have htracing := Machine.load_tracing hload
  obtain ⟨scope, rfl, hl⟩ := Machine.load_ok hload
  have htyped : Typed p (Machine.mk p settings scope 0 .zero) := hl.typed
  refine ⟨?_, ?_, ?_, ?_, ?_, ?_⟩
  · exact State.session_logs calls rfl
  · exact State.retired_attempted (s := ⟨w', _⟩) calls htyped (Nat.zero_le _)
  · exact Attempt.fields_trace settings attempts
  · intro hmode
    refine Attempt.fields_warn settings hmode attempts ?_
    intro a ha t hafter
    have ht := State.stable_attempted (typed_stable p) calls htyped a ha t hafter
    obtain ⟨x, hx, -⟩ := ht.read_ok t.store (p.width?_register Register.dx)
    exact ⟨x, hx⟩
  · intro hmode
    exact Attempt.warned_of_writeThrough settings hmode attempts
  · intro trace
    refine ⟨_, htracing trace, ?_⟩
    intro t
    have hstart : Tracing trace ⟨w', ⟨p, settings, scope, 0, .zero⟩⟩ ⟨w', Machine.tracing _ trace⟩ := ⟨rfl, rfl⟩
    obtain ⟨hanswers, hend⟩ := (Tracing.simulation trace).session hstart calls fun _ _ _ => trivial
    exact ⟨hanswers.symm, hend.store, hend.machine⟩

/-- A step, a run that fails behind a `cwd` that rebinds, a write to `dx` and the run once more. The failing
instruction is logged twice, the value of `dx` is the one before the write, and a machine that does not trace
gives the same answers. -/
theorem log_transcript_retried :
    let calls : List Call := [.step, .run, .write "dx" (.ofInt 7 .word), .run]
    ∃ m w', (Machine.load Program.overfull ⟨true, none, .rebind⟩).run .empty = .ok m w' ∧
      (session State.perform ⟨w', m⟩ calls).2.log.toList = w'.log.toList ++
        [.step 0 (.binary .mov "ax" (.literal (-2))), .step 1 .cwd, .detached (.ofInt (-1) .word),
          .step 2 (.binary .add "dl" (.name "count")), .step 3 (.binary .mov "dh" (.name "ax")),
          .step 3 (.binary .mov "dh" (.name "ax"))] ∧
      ∃ m₂, (Machine.load Program.overfull ⟨false, none, .rebind⟩).run .empty = .ok m₂ w' ∧
        (session State.perform ⟨w', m₂⟩ calls).1 =
          [.ok .done, .error (.widthMismatch 1 2), .ok .done, .error (.widthMismatch 1 2)] := by
  intro calls
  obtain ⟨m, w', hload, hentries, hanswers⟩ : ∃ m w',
      (Machine.load Program.overfull ⟨true, none, .rebind⟩).run .empty = .ok m w' ∧
      (State.attempted ⟨w', m⟩ calls).flatMap (Attempt.events ⟨true, none, .rebind⟩) =
        [.step 0 (.binary .mov "ax" (.literal (-2))), .step 1 .cwd, .detached (.ofInt (-1) .word),
          .step 2 (.binary .add "dl" (.name "count")), .step 3 (.binary .mov "dh" (.name "ax")),
          .step 3 (.binary .mov "dh" (.name "ax"))] ∧
      (session State.perform ⟨w', m⟩ calls).1 =
        [.ok .done, .error (.widthMismatch 1 2), .ok .done, .error (.widthMismatch 1 2)] :=
    ⟨_, _, rfl, by decide +kernel, by decide +kernel⟩
  obtain ⟨hlog, -, -, -, -, hinert⟩ := log_transcript hload calls
  obtain ⟨m₂, hload₂, hsame, -⟩ := hinert false
  refine ⟨m, w', hload, ?_, m₂, hload₂, hsame.trans hanswers⟩
  rw [hlog, hentries]

end Octet
