import Mathlib.Control.Monad.Basic
import Octet.Proofs.Calls

/-!
# A call that fails changes nothing

A step or a write that fails leaves the store and the machine as they were: every byte of every block,
every view, the index of the next instruction and the tally. A run that fails has done exactly the
steps before the instruction that fails, and stands at that instruction. From then on every step and
every run fails in the same way and changes nothing. Only the log may grow, by the instruction that
was about to be executed.

* `perform_error_agrees`: **what a failed call leaves behind**, in every state.
* `Stuck`: the next instruction fails and a run would get to it.
-/

namespace Octet

/-- Two states with the same bytes and the same machine; their logs may differ. -/
def State.Agrees (s t : State) : Prop :=
  s.store = t.store ∧ s.machine = t.machine

theorem State.Agrees.refl (s : State) : s.Agrees s :=
  ⟨rfl, rfl⟩

theorem State.Agrees.trans {s t u : State} (hst : s.Agrees t) (htu : t.Agrees u) : s.Agrees u :=
  ⟨hst.1.trans htu.1, hst.2.trans htu.2⟩

theorem State.refused_agrees (s : State) : s.refused.Agrees s :=
  ⟨s.store_refused, s.machine_refused⟩

/-- A step or a write that fails changes nothing but the log. -/
theorem agrees_of_perform_error {s t : State} {c : Call} {e : Error} (hc : c ≠ .run)
    (h : s.perform c = (.error e, t)) : t.Agrees s := by
  cases c with
  | run => exact absurd rfl hc
  | step =>
    rw [State.perform_step] at h
    cases hst : Machine.step.run s with
    | ok _ u => rw [hst] at h; cases h
    | error e' u =>
      rw [hst] at h
      cases h
      obtain ⟨-, rfl⟩ := Machine.step_error hst
      exact s.refused_agrees
  | write name x =>
    rw [State.perform_write] at h
    split at h
    · cases h
    · cases h; exact .refl s

/-- The next instruction fails with `e`, and a run would get to it. -/
structure Stuck (e : Error) (s : State) : Prop where
  next : s.machine.next s.store = .error e
  remaining : 0 < s.machine.remaining
  free : s.machine.isSpent 0 = false

namespace Stuck

variable {e : Error} {s t : State}

/-- Whether a state is stuck does not depend on the log. -/
theorem of_agrees (hs : Stuck e s) (h : t.Agrees s) : Stuck e t := by
  obtain ⟨hstore, hmachine⟩ := h
  refine ⟨?_, ?_, ?_⟩
  · rw [hmachine, hstore]; exact hs.next
  · rw [hmachine]; exact hs.remaining
  · rw [hmachine]; exact hs.free

theorem run_step (hs : Stuck e s) : Machine.step.run s = .error e s.refused := by
  rw [Machine.run_step, hs.next]

theorem run_run (hs : Stuck e s) : Machine.run.run s = .error e s.refused := by
  obtain ⟨n, hn⟩ : ∃ n, s.machine.remaining = n + 1 := ⟨_, (Nat.succ_pred_eq_of_pos hs.remaining).symm⟩
  rw [Machine.run_run, hn, Machine.run_runFrom_succ, if_neg (by simp [hs.free]), hs.run_step]

/-- A stuck machine answers steps and runs with its error and stays as it is. -/
theorem perform (hs : Stuck e s) {c : Call} (hc : c = .step ∨ c = .run) :
    s.perform c = (.error e, s.refused) := by
  rcases hc with rfl | rfl
  · rw [State.perform_step, hs.run_step]
  · rw [State.perform_run, hs.run_run]

/-- The same for any number of calls. -/
theorem session (calls : List Call) : ∀ s, Stuck e s → (∀ c ∈ calls, c = .step ∨ c = .run) →
    (∀ a ∈ (session State.perform s calls).1, a = .error e) ∧
      (session State.perform s calls).2.Agrees s := by
  induction calls with
  | nil => intro s _ _; exact ⟨by simp [Octet.session], .refl s⟩
  | cons c cs ih =>
    intro s hs hcs
    have hp := hs.perform (hcs c List.mem_cons_self)
    obtain ⟨has, hend⟩ := ih s.refused (hs.of_agrees s.refused_agrees)
      fun c' hc' => hcs c' (List.mem_cons_of_mem _ hc')
    simp only [Octet.session, hp]
    refine ⟨?_, hend.trans s.refused_agrees⟩
    intro a ha
    rcases List.mem_cons.1 ha with rfl | ha
    · rfl
    · exact has a ha

end Stuck

namespace Machine

/-- A bound that is not reached after some steps is not reached before them. -/
theorem isSpent_mono {m : Machine} {k : Nat} (h : m.isSpent k = false) : m.isSpent 0 = false := by
  unfold isSpent at h ⊢
  split
  · simp_all; omega
  · rfl

/-- **Where a failed run stands.** -/
theorem run_error {s t : State} {e : Error} (h : run.run s = .error e t) :
    ∃ k u, Steps k s u ∧ step.run u = .error e t ∧ Stuck e u := by
  rw [run_run] at h
  obtain ⟨k, u, hsteps, hstep, hlt, hfree⟩ := runFrom_error _ _ _ _ _ h
  obtain ⟨hset, hprog, hip⟩ := hsteps.moves
  refine ⟨k, u, hsteps, hstep, (step_error hstep).1, ?_, isSpent_mono hfree⟩
  -- the run had more than `k` instructions left when it started
  unfold remaining at hlt ⊢
  rw [hprog, hip]
  omega

end Machine

/-- **A call that fails changes nothing.** A step or a write that fails leaves bytes, views, index and
tally as they were. A run that fails has done `k` steps and stands at the instruction that fails; every
later step or run gives the same error and leaves everything as it is. -/
theorem perform_error_agrees (s : State) :
    (∀ c e t, c ≠ .run → s.perform c = (.error e, t) → t.Agrees s) ∧
    ∀ e t, s.perform .run = (.error e, t) →
      ∃ k u, Machine.Steps k s u ∧ u.perform .step = (.error e, t) ∧ t.Agrees u ∧
        t.machine.ip = s.machine.ip + k ∧ t.machine.ip < t.machine.program.length ∧
        ∀ calls, (∀ c ∈ calls, c = .step ∨ c = .run) →
          (∀ a ∈ (session State.perform t calls).1, a = .error e) ∧
            (session State.perform t calls).2.Agrees t := by
  refine ⟨fun c e t hc h => agrees_of_perform_error hc h, ?_⟩
  intro e t h
  rw [State.perform_run] at h
  cases hrun : Machine.run.run s with
  | ok outcome u => rw [hrun] at h; cases h
  | error e' t' =>
    rw [hrun] at h
    cases h
    obtain ⟨k, u, hsteps, hstep, hstuck⟩ := Machine.run_error hrun
    have hagrees : t.Agrees u := by
      obtain ⟨-, rfl⟩ := Machine.step_error hstep
      exact u.refused_agrees
    have hip : t.machine.ip = s.machine.ip + k := by rw [hagrees.2]; exact hsteps.moves.2.2
    have hlt : t.machine.ip < t.machine.program.length := by
      have := (hstuck.of_agrees hagrees).remaining
      unfold Machine.remaining at this
      omega
    refine ⟨k, u, hsteps, ?_, hagrees, hip, hlt, ?_⟩
    · rw [State.perform_step, hstep]
    · intro calls hcalls
      exact Stuck.session calls t (hstuck.of_agrees hagrees) hcalls

/-- The run fails at its last instruction, after `cwd` has given `dx` a block of its own; the calls
after it fail alike and keep that block. -/
theorem perform_error_agrees_detached :
    ∃ m w', (Machine.load Program.overfull ⟨true, none, .rebind⟩).run .empty = .ok m w' ∧
      (State.perform ⟨w', m⟩ .run).1 = .error (.widthMismatch 1 2) ∧
      let t := (State.perform ⟨w', m⟩ .run).2
      t.machine.ip = 3 ∧ (∀ a ∈ (session State.perform t [.step, .run]).1, a = .error (.widthMismatch 1 2)) ∧
        (session State.perform t [.step, .run]).2.Agrees t := by
  refine ⟨_, _, rfl, ?_⟩
  generalize hs : State.mk _ _ = s
  have herror : (s.perform .run).1 = .error (.widthMismatch 1 2) := by subst hs; decide +kernel
  obtain ⟨-, -, -, -, -, -, -, hagain⟩ := (perform_error_agrees s).2 _ _ (Prod.ext herror rfl)
  exact ⟨herror, by subst hs; decide +kernel, hagain [.step, .run] (by simp)⟩

end Octet
