import Mathlib.Order.Bounds.Defs
import Octet.Proofs.Atomicity
import Octet.Proofs.Typing

/-!
# How far a run gets

A run makes steps until no instruction is left, the bound of the settings is reached, or a step fails.
Widths decide which instructions fail, so all three can be told before the run starts: the first
instruction that fails is `Program.firstFault`, and the bound cuts the way there short.

* `Machine.runFrom_cases`: every run is some successful steps and the reason why there are no more.
* `resume_of_bound`: runs with a bound, repeated until one does not stop at it, end where one run
  without a bound ends.
* `perform_run_firstFault`: **how far a run gets, how it ends, and that a bound only interrupts it.**
-/

namespace Octet

/-- The index of the first instruction from `ip` on that fails, or of the end of the program. -/
def Program.firstFault (p : Program) (ip : Nat) : Nat :=
  ip + (p.code.drop ip).findIdx fun i => !(p.check i).isOk

/-- The most of `n` steps that the bound allows. -/
def Settings.allowed (settings : Settings) (n : Nat) : Nat :=
  match settings.maxSteps with
  | none => n
  | some bound => min n bound.toNat

namespace State

/-- The state with another bound on the steps of a run. -/
def withBound (s : State) (bound : Option UInt64) : State :=
  { s with machine.settings.maxSteps := bound }

end State

namespace Program

variable {p : Program} {ip j : Nat}

theorem le_firstFault (p : Program) (ip : Nat) : ip ≤ p.firstFault ip :=
  Nat.le_add_right _ _

theorem firstFault_le (h : ip ≤ p.length) : p.firstFault ip ≤ p.length := by
  have hle : (p.code.drop ip).findIdx (fun i => !(p.check i).isOk) ≤ (p.code.drop ip).length :=
    List.findIdx_le_length
  rw [List.length_drop] at hle
  unfold firstFault length at *
  omega

theorem verdict_of_lt_firstFault (h1 : ip ≤ j) (h2 : j < p.firstFault ip) : p.verdict j = .ok () := by
  unfold firstFault at h2
  have hlt : j - ip < (p.code.drop ip).findIdx fun i => !(p.check i).isOk := by omega
  have hok := List.not_of_lt_findIdx hlt
  have hlen : j - ip < (p.code.drop ip).length := Nat.lt_of_lt_of_le hlt List.findIdx_le_length
  rw [List.length_drop] at hlen
  have hj : ip + (j - ip) = j := by omega
  simp only [List.getElem_drop, hj] at hok
  have hcode : p.code[j]? = some p.code[j] := List.getElem?_eq_getElem (by omega)
  unfold verdict
  rw [hcode]
  cases hc : p.check p.code[j] with
  | ok _ => exact hc
  | error e => simp [hc, Except.isOk, Except.toBool] at hok

theorem verdict_firstFault (p : Program) (ip : Nat) : ∃ e, p.verdict (p.firstFault ip) = .error e := by
  unfold verdict
  cases hcode : p.code[p.firstFault ip]? with
  | none => exact ⟨_, rfl⟩
  | some i =>
    obtain ⟨hlt, hi⟩ := List.getElem?_eq_some_iff.1 hcode
    unfold firstFault at hlt hi
    have hfind : (p.code.drop ip).findIdx (fun i => !(p.check i).isOk) < (p.code.drop ip).length := by
      rw [List.length_drop]
      omega
    have hbad := List.findIdx_getElem (w := hfind)
    rw [List.getElem_drop, hi] at hbad
    cases hc : p.check i with
    | ok _ => simp [hc, Except.isOk, Except.toBool] at hbad
    | error e => exact ⟨e, hc⟩

theorem le_firstFault_of_verdict (hok : ∀ i, ip ≤ i → i < j → p.verdict i = .ok ()) : j ≤ p.firstFault ip := by
  apply Nat.le_of_not_lt
  intro hlt
  obtain ⟨e, he⟩ := p.verdict_firstFault ip
  rw [hok _ (p.le_firstFault ip) hlt] at he
  cases he

theorem firstFault_eq {e : Error} (hle : ip ≤ j) (hok : ∀ i, ip ≤ i → i < j → p.verdict i = .ok ())
    (hbad : p.verdict j = .error e) : p.firstFault ip = j := by
  apply Nat.le_antisymm _ (le_firstFault_of_verdict hok)
  apply Nat.le_of_not_lt
  intro hlt
  rw [verdict_of_lt_firstFault hle hlt] at hbad
  cases hbad

end Program

theorem Typed.goto {p : Program} {s : State} (hs : Typed p s.machine) (ip : Nat) :
    Typed p (s.goto ip).machine :=
  ⟨hs.program, hs.width⟩

/-- A step of a machine with the widths of its program ends as the verdict says. -/
theorem Typed.run_step {p : Program} {s : State} (hs : Typed p s.machine) :
    (p.verdict s.machine.ip = .ok () ∧ ∃ t, Machine.step.run s = .ok () t) ∨
      ∃ e, p.verdict s.machine.ip = .error e ∧ Machine.step.run s = .error e s.refused := by
  rw [Machine.run_step]
  unfold Machine.next Machine.current? Program.verdict
  rw [hs.program]
  cases p.code[s.machine.ip]? with
  | none => exact Or.inr ⟨_, rfl, rfl⟩
  | some i =>
    obtain ⟨x, hc, hx, -⟩ | ⟨e, hc, he⟩ := hs.attempt_check s.store i
    · exact Or.inl ⟨hc, by simp only [hx]; exact ⟨_, rfl⟩⟩
    · exact Or.inr ⟨e, hc, by simp only [he]; rfl⟩

theorem Typed.perform_step {p : Program} {s : State} (hs : Typed p s.machine) :
    (s.perform .step).1 = (p.verdict s.machine.ip).map fun _ => Reply.done := by
  rw [State.perform_step]
  obtain ⟨hv, t, ht⟩ | ⟨e, hv, he⟩ := hs.run_step
  · rw [hv, ht]; rfl
  · rw [hv, he]; rfl

theorem settings_stable (settings : Settings) : Stable fun s => s.machine.settings = settings where
  log _ _ hs := hs
  execute s i x hs _ _ := (Machine.deliver_settings s i x).1.trans hs
  assign s name x hs _ := by rw [State.machine_assign]; exact hs

/-- No call moves a machine beyond the end of its program. -/
theorem ip_stable : Stable fun s => s.machine.ip ≤ s.machine.program.length where
  log _ _ hs := hs
  execute s i x hs hi _ := by
    obtain ⟨-, hprogram, hip⟩ := Machine.deliver_settings s i x
    have hlt : s.machine.ip < s.machine.program.code.length := by
      unfold Machine.current? at hi
      exact (List.getElem?_eq_some_iff.1 hi).1
    show (s.deliver i x).machine.ip + 1 ≤ (s.deliver i x).machine.program.code.length
    rw [hprogram, hip]
    exact hlt
  assign s name x hs _ := by rw [State.machine_assign]; exact hs

namespace Machine

theorem isSpent_eq_true {m : Machine} {k : Nat} :
    m.isSpent k = true ↔ ∃ bound, m.settings.maxSteps = some bound ∧ bound.toNat ≤ k := by
  unfold isSpent
  cases m.settings.maxSteps with
  | none => simp
  | some bound => simp

theorem le_bound {m : Machine} {n : Nat} {bound : UInt64} (hfree : ∀ j, j < n → m.isSpent j = false)
    (hbound : m.settings.maxSteps = some bound) : n ≤ bound.toNat := by
  apply Nat.le_of_not_lt
  intro hlt
  have hnot := hfree bound.toNat hlt
  rw [isSpent_eq_true.2 ⟨bound, hbound, Nat.le_refl _⟩] at hnot
  cases hnot

/-- The bound allows exactly the steps after which it is reached for the first time, if it is reached. -/
theorem allowed_eq {m : Machine} {n N : Nat} (hfree : ∀ j, j < n → m.isSpent j = false) (hle : n ≤ N)
    (hend : n = N ∨ m.isSpent n = true) : m.settings.allowed N = n := by
  unfold Settings.allowed
  cases hb : m.settings.maxSteps with
  | none =>
    rcases hend with h | h
    · exact h.symm
    · obtain ⟨bound, hbound, -⟩ := isSpent_eq_true.1 h
      rw [hb] at hbound
      cases hbound
  | some bound =>
    have hbound := le_bound hfree hb
    rcases hend with h | h
    · simp only
      omega
    · obtain ⟨b, hb', hreached⟩ := isSpent_eq_true.1 h
      rw [hb] at hb'
      cases hb'
      simp only
      omega

namespace Steps

variable {k n : Nat} {s t u : State}

theorem trans (h : Steps k s t) (h' : Steps n t u) : Steps (k + n) s u := by
  induction h with
  | zero s => rw [Nat.zero_add]; exact h'
  | @succ k s v t hst _ ih =>
    have hk : k + 1 + n = k + n + 1 := by omega
    rw [hk]
    exact .succ hst (ih h')

theorem invariant {P : State → Prop} (hP : Stable P) (h : Steps k s t) (hs : P s) : P t := by
  induction h with
  | zero s => exact hs
  | succ hst _ ih => exact ih (hP.step_ok hs hst)

/-- Every step takes one instruction from those that are left. -/
theorem remaining (h : Steps k s t) : s.machine.remaining = k + t.machine.remaining := by
  induction h with
  | zero s => rw [Nat.zero_add]
  | @succ k s v t hst _ ih =>
    obtain ⟨i, x, hi, -, -⟩ := step_ok hst
    obtain ⟨-, hprogram, hip⟩ := step_moves hst
    have hlt : s.machine.ip < s.machine.program.code.length := (List.getElem?_eq_some_iff.1 hi).1
    unfold Machine.remaining Program.length at *
    rw [hprogram, hip] at ih
    omega

/-- Steps succeed only where the verdict is good. -/
theorem verdict {p : Program} (h : Steps k s t) (hs : Typed p s.machine) {i : Nat} (h1 : s.machine.ip ≤ i)
    (h2 : i < s.machine.ip + k) : p.verdict i = .ok () := by
  induction h with
  | zero s => omega
  | @succ k s v t hst _ ih =>
    have hip := (step_moves hst).2.2
    rcases Nat.eq_or_lt_of_le h1 with rfl | hlt
    · obtain ⟨hv, -⟩ | ⟨e, -, he⟩ := hs.run_step
      · exact hv
      · rw [hst] at he; cases he
    · exact ih ((typed_stable p).step_ok hs hst) (by omega) (by omega)

end Steps

/-- **Every run is some successful steps and the reason why there are no more.** -/
theorem runFrom_cases (left : Nat) : ∀ steps s, ∃ k t, Steps k s t ∧ k ≤ left ∧
    (∀ j, j < k → s.machine.isSpent (steps + j) = false) ∧
    ((k = left ∧ (runFrom steps left).run s = .ok (.halted (steps + k)) t) ∨
      (k < left ∧ s.machine.isSpent (steps + k) = true ∧
        (runFrom steps left).run s = .ok (.stepLimit (steps + k)) t) ∨
      k < left ∧ s.machine.isSpent (steps + k) = false ∧
        ∃ e, step.run t = .error e t.refused ∧ (runFrom steps left).run s = .error e t.refused) := by
  induction left with
  | zero =>
    intro steps s
    exact ⟨0, s, .zero s, Nat.le_refl 0, by intro j hj; omega, Or.inl ⟨rfl, rfl⟩⟩
  | succ left ih =>
    intro steps s
    cases hspent : s.machine.isSpent steps with
    | true =>
      have hrun : (runFrom steps (left + 1)).run s = .ok (.stepLimit steps) s := by
        rw [run_runFrom_succ, if_pos hspent]
      exact ⟨0, s, .zero s, Nat.zero_le _, by intro j hj; omega, Or.inr (Or.inl ⟨by omega, hspent, hrun⟩)⟩
    | false =>
      cases hst : step.run s with
      | error e v =>
        obtain ⟨-, rfl⟩ := step_error hst
        have hrun : (runFrom steps (left + 1)).run s = .error e s.refused := by
          rw [run_runFrom_succ, if_neg (by simp [hspent]), hst]
        exact ⟨0, s, .zero s, Nat.zero_le _, by intro j hj; omega,
          Or.inr (Or.inr ⟨by omega, hspent, e, hst, hrun⟩)⟩
      | ok _ v =>
        have hround : (runFrom steps (left + 1)).run s = (runFrom (steps + 1) left).run v := by
          rw [run_runFrom_succ, if_neg (by simp [hspent]), hst]
        obtain ⟨k, t, hsteps, hk, hfree, hend⟩ := ih (steps + 1) v
        -- the bound does not change from step to step
        have hsame : ∀ j, v.machine.isSpent j = s.machine.isSpent j := by
          intro j
          unfold isSpent
          rw [(step_moves hst).1]
        have hcount : steps + 1 + k = steps + (k + 1) := by omega
        simp only [hsame] at hfree hend
        rw [hcount, ← hround] at hend
        refine ⟨k + 1, t, .succ hst hsteps, by omega, ?_, ?_⟩
        · intro j hj
          cases j with
          | zero => exact hspent
          | succ j =>
            have hj' := hfree j (by omega)
            have hcount' : steps + 1 + j = steps + (j + 1) := by omega
            rwa [hcount'] at hj'
        · obtain ⟨h1, h2⟩ | ⟨h1, h2⟩ | ⟨h1, h2⟩ := hend
          · exact Or.inl ⟨by omega, h2⟩
          · exact Or.inr (Or.inl ⟨by omega, h2⟩)
          · exact Or.inr (Or.inr ⟨by omega, h2⟩)

/-- A run without a bound goes through all steps that succeed. -/
theorem runFrom_of_steps {k : Nat} {s t : State} (h : Steps k s t) (hfree : s.machine.settings.maxSteps = none) :
    ∀ steps left, k ≤ left → (runFrom steps left).run s = (runFrom (steps + k) (left - k)).run t := by
  induction h with
  | zero s => intro steps left _; rfl
  | @succ k s v t hst _ ih =>
    intro steps left hk
    obtain ⟨left, rfl⟩ : ∃ n, left = n + 1 := ⟨left - 1, by omega⟩
    have hspent : s.machine.isSpent steps = false := by
      unfold isSpent
      rw [hfree]
    have hcount : steps + 1 + k = steps + (k + 1) := by omega
    have hleft : left + 1 - (k + 1) = left - k := by omega
    rw [run_runFrom_succ, if_neg (by simp [hspent]), hst, hleft, ← hcount]
    exact ih (by rw [(step_moves hst).1]; exact hfree) _ _ (by omega)

theorem run_of_steps_halted {k : Nat} {s t : State} (h : Steps k s t) (hfree : s.machine.settings.maxSteps = none)
    (hk : k = s.machine.remaining) : run.run s = .ok (.halted k) t := by
  have hrun := runFrom_of_steps h hfree 0 s.machine.remaining (by omega)
  rw [← hk, Nat.sub_self, Nat.zero_add] at hrun
  rw [run_run, ← hk, hrun]
  rfl

theorem run_of_steps_error {k : Nat} {s t u : State} {e : Error} (h : Steps k s t)
    (hfree : s.machine.settings.maxSteps = none) (hk : k < s.machine.remaining)
    (hst : step.run t = .error e u) : run.run s = .error e u := by
  have hrun := runFrom_of_steps h hfree 0 s.machine.remaining (by omega)
  obtain ⟨left, hleft⟩ : ∃ n, s.machine.remaining - k = n + 1 := ⟨s.machine.remaining - k - 1, by omega⟩
  have hspent : t.machine.isSpent (0 + k) = false := by
    unfold isSpent
    rw [h.moves.1, hfree]
  rw [run_run, hrun, hleft, run_runFrom_succ, if_neg (by rw [hspent]; decide), hst]

end Machine

/-- The same for a call: steps, and then the end, the bound or a step that fails. -/
theorem State.perform_run_cases (s : State) : ∃ k t, Machine.Steps k s t ∧
    (∀ j, j < k → s.machine.isSpent j = false) ∧
    ((k = s.machine.remaining ∧ s.perform .run = (.ok (.ended (.halted k)), t)) ∨
      (k < s.machine.remaining ∧ s.machine.isSpent k = true ∧
        s.perform .run = (.ok (.ended (.stepLimit k)), t)) ∨
      k < s.machine.remaining ∧ s.machine.isSpent k = false ∧
        ∃ e, Machine.step.run t = .error e t.refused ∧ s.perform .run = (.error e, t.refused)) := by
  obtain ⟨k, t, hsteps, -, hfree, hend⟩ := Machine.runFrom_cases s.machine.remaining 0 s
  simp only [Nat.zero_add] at hfree hend
  refine ⟨k, t, hsteps, hfree, ?_⟩
  rw [State.perform_run, Machine.run_run]
  obtain ⟨hk, hrun⟩ | ⟨hk, hspent, hrun⟩ | ⟨hk, hspent, e, hstep, hrun⟩ := hend
  · exact Or.inl ⟨hk, by rw [hrun]⟩
  · exact Or.inr (Or.inl ⟨hk, hspent, by rw [hrun]⟩)
  · exact Or.inr (Or.inr ⟨hk, hspent, e, hstep, by rw [hrun]⟩)

section Resume

variable {s t : State} {bound : Option UInt64}

/-- A step does not look at the bound. -/
theorem run_step_withBound (s : State) (bound : Option UInt64) :
    Machine.step.run (s.withBound bound) =
      match Machine.step.run s with
      | .ok () t => .ok () (t.withBound bound)
      | .error e t => .error e (t.withBound bound) := by
  have hnext : (s.withBound bound).machine.next (s.withBound bound).store = s.machine.next s.store := rfl
  have hannounced : ∀ i, (s.withBound bound).announced i = (s.announced i).withBound bound := by
    intro i
    unfold State.announced
    cases ht : s.machine.settings.trace with
    | true => simp [State.withBound, ht]
    | false => simp [State.withBound, ht]
  have hdeliver : ∀ (u : State) i x, (u.withBound bound).deliver i x = (u.deliver i x).withBound bound := by
    intro u i x
    have hr : (u.withBound bound).machine.rebinds i = u.machine.rebinds i := rfl
    have hl : (u.withBound bound).machine.scope.lookup? i.target = u.machine.scope.lookup? i.target := rfl
    unfold State.deliver State.assign
    rw [hr, hl]
    split
    · rfl
    · split <;> rfl
  rw [Machine.run_step, Machine.run_step, hnext]
  cases s.machine.next s.store with
  | ok ix => simp only [hannounced, hdeliver]; rfl
  | error e =>
    have hrefused : (s.withBound bound).refused = s.refused.withBound bound := by
      have hcurrent : (s.withBound bound).machine.current? = s.machine.current? := rfl
      unfold State.refused
      rw [hcurrent]
      split
      · rfl
      · exact hannounced _
    simp only [hrefused]

theorem Machine.Steps.withBound {k : Nat} (h : Machine.Steps k s t) (bound : Option UInt64) :
    Machine.Steps k (s.withBound bound) (t.withBound bound) := by
  induction h with
  | zero s => exact .zero _
  | @succ k s v t hst _ ih =>
    refine .succ (t := v.withBound bound) ?_ ih
    rw [run_step_withBound, hst]

/-- Runs that stop at the bound come to an end, because each of them makes as many steps as the bound says. -/
theorem exists_last_run {bound : UInt64} (hpos : 0 < bound.toNat) (left : Nat) : ∀ s : State,
    s.machine.settings.maxSteps = some bound → s.machine.remaining ≤ left →
    ∃ n t k u, session State.perform s (List.replicate n .run) =
        (List.replicate n (.ok (.ended (.stepLimit bound.toNat))), t) ∧
      Machine.Steps (n * bound.toNat) s t ∧ Machine.Steps k t u ∧
      ((k = t.machine.remaining ∧ t.perform .run = (.ok (.ended (.halted k)), u)) ∨
        k < t.machine.remaining ∧
          ∃ e, Machine.step.run u = .error e u.refused ∧ t.perform .run = (.error e, u.refused)) := by
  induction left using Nat.strongRecOn with
  | ind left ih =>
    intro s hbound hleft
    obtain ⟨k, t, hsteps, hfree, hend⟩ := s.perform_run_cases
    obtain ⟨hk, hrun⟩ | ⟨hk, hspent, hrun⟩ | ⟨hk, -, he⟩ := hend
    · exact ⟨0, s, k, t, rfl, by rw [Nat.zero_mul]; exact .zero s, hsteps, Or.inl ⟨hk, hrun⟩⟩
    · -- the bound was reached and not passed, so the run made `bound` steps and fewer are left
      have hk' : k = bound.toNat := by
        obtain ⟨b, hb, hreached⟩ := Machine.isSpent_eq_true.1 hspent
        rw [hbound] at hb
        cases hb
        exact Nat.le_antisymm (Machine.le_bound hfree hbound) hreached
      subst hk'
      have hfewer : t.machine.remaining < left := by
        have := hsteps.remaining
        omega
      obtain ⟨n, v, k, u, hsession, hv, hu, hlast⟩ :=
        ih _ hfewer t (by rw [hsteps.moves.1]; exact hbound) (Nat.le_refl _)
      refine ⟨n + 1, v, k, u, ?_, ?_, hu, hlast⟩
      · rw [List.replicate_succ, session, hrun]
        simp only [hsession]
        rw [List.replicate_succ]
      · have hcount : (n + 1) * bound.toNat = bound.toNat + n * bound.toNat := by
          rw [Nat.add_mul, Nat.one_mul, Nat.add_comm]
        rw [hcount]
        exact hsteps.trans hv
    · exact ⟨0, s, k, t, rfl, by rw [Nat.zero_mul]; exact .zero s, hsteps, Or.inr ⟨hk, he⟩⟩

/-- **A bound only interrupts a run.** Runs with a bound, repeated until one does not stop at it, end as
one run without a bound does, and their steps add up. -/
theorem resume_of_bound {bound : UInt64} (hpos : 0 < bound.toNat) (s : State)
    (hbound : s.machine.settings.maxSteps = some bound) :
    ∃ n t, session State.perform s (List.replicate n .run) =
        (List.replicate n (.ok (.ended (.stepLimit bound.toNat))), t) ∧
      ((s.withBound none).perform .run).2 = (t.perform .run).2.withBound none ∧
      ((∃ j, (t.perform .run).1 = .ok (.ended (.halted j)) ∧
          ((s.withBound none).perform .run).1 = .ok (.ended (.halted (n * bound.toNat + j)))) ∨
        ∃ e, (t.perform .run).1 = .error e ∧ ((s.withBound none).perform .run).1 = .error e) := by
  obtain ⟨n, t, k, u, hsession, ht, hu, hlast⟩ :=
    exists_last_run hpos s.machine.remaining s hbound (Nat.le_refl _)
  have hall := (ht.trans hu).withBound none
  have hleft : (s.withBound none).machine.remaining = n * bound.toNat + t.machine.remaining := ht.remaining
  refine ⟨n, t, hsession, ?_⟩
  obtain ⟨hk, hrun⟩ | ⟨hk, e, hstep, hrun⟩ := hlast
  · have hwhole := Machine.run_of_steps_halted hall rfl (by omega)
    rw [State.perform_run, hwhole, hrun]
    exact ⟨rfl, Or.inl ⟨k, rfl, rfl⟩⟩
  · have hstep' : Machine.step.run (u.withBound none) = .error e (u.refused.withBound none) := by
      rw [run_step_withBound, hstep]
    have hwhole := Machine.run_of_steps_error hall rfl (by omega) hstep'
    rw [State.perform_run, hwhole, hrun]
    exact ⟨rfl, Or.inr ⟨e, rfl, rfl⟩⟩

end Resume

/-- How far a run gets if the widths are those of the program. -/
theorem Typed.perform_run {p : Program} {s : State} (hs : Typed p s.machine)
    (hip : s.machine.ip ≤ p.length) :
    let f := p.firstFault s.machine.ip
    let k := s.machine.settings.allowed (f - s.machine.ip)
    ∃ t, Machine.Steps k s t ∧ (s.perform .run).2.Agrees t ∧
      s.perform .run =
        if s.machine.ip + k = p.length then (.ok (.ended (.halted k)), t)
        else if s.machine.settings.maxSteps.map UInt64.toNat = some k then (.ok (.ended (.stepLimit k)), t)
        else (((s.goto f).perform .step).1, t.refused) := by
  intro f k
  obtain ⟨n, t, hsteps, hfree, hend⟩ := s.perform_run_cases
  have hremaining : s.machine.remaining = p.length - s.machine.ip := by
    unfold Machine.remaining
    rw [hs.program]
  have hgood : ∀ i, s.machine.ip ≤ i → i < s.machine.ip + n → p.verdict i = .ok () :=
    fun i h1 h2 => hsteps.verdict hs h1 h2
  have hfar := Program.le_firstFault_of_verdict hgood
  obtain ⟨hn, hrun⟩ | ⟨hn, hspent, hrun⟩ | ⟨hn, hspent, e, hstep, hrun⟩ := hend
  · -- the end of the program is where the run would fail next
    have hend := p.firstFault_le hip
    have hk : k = n := Machine.allowed_eq hfree (by omega) (Or.inl (by omega))
    rw [hk]
    refine ⟨t, hsteps, by rw [hrun]; exact .refl t, ?_⟩
    rw [if_pos (by omega)]
    exact hrun
  · have hk : k = n := Machine.allowed_eq hfree (by omega) (Or.inr hspent)
    obtain ⟨bound, hbound, hreached⟩ := Machine.isSpent_eq_true.1 hspent
    have hexact : bound.toNat = n := Nat.le_antisymm hreached (Machine.le_bound hfree hbound)
    rw [hk]
    refine ⟨t, hsteps, by rw [hrun]; exact .refl t, ?_⟩
    rw [if_neg (by omega), if_pos (by rw [hbound, ← hexact]; rfl)]
    exact hrun
  · have hbad : p.verdict (s.machine.ip + n) = .error e := by
      obtain ⟨-, v, hv⟩ | ⟨e', hv, he⟩ := (hsteps.invariant (typed_stable p) hs).run_step
      · rw [hstep] at hv; cases hv
      · rw [hstep] at he
        cases he
        rw [← hsteps.moves.2.2]
        exact hv
    have hf : f = s.machine.ip + n := Program.firstFault_eq (by omega) hgood hbad
    have hk : k = n := Machine.allowed_eq hfree (by omega) (Or.inl (by omega))
    have hanswer : ((s.goto f).perform .step).1 = .error e := by
      rw [(hs.goto f).perform_step]
      show (p.verdict f).map _ = _
      rw [hf, hbad]
      rfl
    have hnot : s.machine.settings.maxSteps.map UInt64.toNat ≠ some n := by
      intro hb
      obtain ⟨bound, hbound, hle⟩ := Option.map_eq_some_iff.1 hb
      rw [Machine.isSpent_eq_true.2 ⟨bound, hbound, by omega⟩] at hspent
      cases hspent
    rw [hk]
    refine ⟨t, hsteps, by rw [hrun]; exact t.refused_agrees, ?_⟩
    rw [if_neg (by omega), if_neg hnot, hanswer]
    exact hrun

/-- **How far a run gets.** In every state that calls lead to, a run makes the steps up to the first
instruction that fails, as far as the bound allows, and ends as the instruction there, the end of the
program or the bound says. Where the bound stops it, further runs end as one run without a bound. -/
theorem perform_run_firstFault {p : Program} {settings : Settings} {w w' : World} {m : Machine}
    (hload : (Machine.load p settings).run w = .ok m w') {s : State} (hs : Reaches ⟨w', m⟩ s) :
    let f := p.firstFault s.machine.ip
    let k := settings.allowed (f - s.machine.ip)
    (IsLeast {j | s.machine.ip ≤ j ∧ ∃ e, ((s.goto j).perform .step).1 = .error e} f ∧ f ≤ p.length) ∧
    (∃ t, Machine.Steps k s t ∧ (s.perform .run).2.Agrees t ∧
      s.perform .run =
        if s.machine.ip + k = p.length then (.ok (.ended (.halted k)), t)
        else if settings.maxSteps.map UInt64.toNat = some k then (.ok (.ended (.stepLimit k)), t)
        else (((s.goto f).perform .step).1, t.refused)) ∧
    ∀ bound : UInt64, 0 < bound.toNat →
      ∃ n t, session State.perform (s.withBound (some bound)) (List.replicate n .run) =
          (List.replicate n (.ok (.ended (.stepLimit bound.toNat))), t) ∧
        ((s.withBound none).perform .run).2 = (t.perform .run).2.withBound none ∧
        ((∃ j, (t.perform .run).1 = .ok (.ended (.halted j)) ∧
            ((s.withBound none).perform .run).1 = .ok (.ended (.halted (n * bound.toNat + j)))) ∨
          ∃ e, (t.perform .run).1 = .error e ∧ ((s.withBound none).perform .run).1 = .error e) := by
  intro f k
  obtain ⟨scope, rfl, hl⟩ := Machine.load_ok hload
  have htyped : Typed p s.machine := hs.invariant (typed_stable p) hl.typed
  have hsettings : s.machine.settings = settings := hs.invariant (settings_stable settings) rfl
  have hip : s.machine.ip ≤ p.length := by
    rw [← htyped.program]
    exact hs.invariant ip_stable (Nat.zero_le _)
  refine ⟨⟨⟨⟨p.le_firstFault _, ?_⟩, ?_⟩, p.firstFault_le hip⟩, ?_, ?_⟩
  · obtain ⟨e, he⟩ := p.verdict_firstFault s.machine.ip
    refine ⟨e, ?_⟩
    rw [(htyped.goto f).perform_step]
    show (p.verdict f).map _ = _
    rw [he]
    rfl
  · rintro j ⟨hj, e, he⟩
    apply Nat.le_of_not_lt
    intro hlt
    have hok := p.verdict_of_lt_firstFault hj hlt
    rw [(htyped.goto j).perform_step] at he
    change (p.verdict j).map _ = _ at he
    rw [hok] at he
    cases he
  · have hrun := htyped.perform_run hip
    rw [hsettings] at hrun
    exact hrun
  · intro bound hpos
    exact resume_of_bound hpos (s.withBound (some bound)) rfl

/-- The bound is used up exactly at the instruction that fails; with a smaller bound two more runs get
there, and the one after them fails as a run without a bound does. -/
theorem perform_run_firstFault_interrupted :
    ∃ m w', (Machine.load Program.overfull ⟨true, some 2, .rebind⟩).run .empty = .ok m w' ∧
      let s := (session State.perform ⟨w', m⟩ [.step]).2
      IsLeast {j | s.machine.ip ≤ j ∧ ∃ e, ((s.goto j).perform .step).1 = .error e} 3 ∧
      (s.perform .run).1 = .ok (.ended (.stepLimit 2)) ∧
      ∃ n t, session State.perform (s.withBound (some 1)) (List.replicate n .run) =
          (List.replicate n (.ok (.ended (.stepLimit 1))), t) ∧
        (t.perform .run).1 = .error (.widthMismatch 1 2) := by
  refine ⟨_, _, rfl, ?_⟩
  intro s
  obtain ⟨⟨hleast, -⟩, ⟨t, -, -, hrun⟩, hresume⟩ := @perform_run_firstFault Program.overfull
    ⟨true, some 2, .rebind⟩ .empty _ _ rfl s ⟨[.step], rfl⟩
  refine ⟨hleast, (congrArg Prod.fst hrun).trans rfl, ?_⟩
  have hwhole : ((s.withBound none).perform .run).1 = .error (.widthMismatch 1 2) := by decide +kernel
  obtain ⟨n, u, hsession, -, ⟨j, -, hhalted⟩ | ⟨e, herror, he⟩⟩ := hresume 1 (by decide)
  · rw [hwhole] at hhalted
    cases hhalted
  · rw [hwhole] at he
    cases he
    exact ⟨n, u, hsession, herror⟩

end Octet
