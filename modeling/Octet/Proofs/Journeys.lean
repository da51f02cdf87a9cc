import Octet.Proofs.Runs
import Octet.Proofs.Simulation

/-!
# Journeys

A machine that is asked for some steps makes them as long as there is an instruction and it does not fail. It
leaves some states behind and stops in another one. A run under a bound makes such a journey, and so does
everyone who takes one step at a time; what the bound is and what has been logged does not matter to it.

* `State.journey`: at most so many steps.
* `State.journey_withBound`: **journeys do not depend on bounds and logs.**
* `Machine.runFrom_journey`: **a run under a bound is a journey of as many steps.**
-/

namespace Octet

/-- The states that some steps have left behind, the one in which they stop, and the error that stopped
them, if one did. -/
structure Journey where
  earlier : List State
  last : State
  error : Option Error

/-- At most so many steps, as long as there is an instruction and it does not fail. -/
def State.journey : Nat → State → Journey
  | 0, s => ⟨[], s, none⟩
  | n + 1, s =>
    match s.machine.current? with
    | none => ⟨[], s, none⟩
    | some _ =>
      match Machine.step.run s with
      | .ok () t => ⟨s :: (State.journey n t).earlier, (State.journey n t).last, (State.journey n t).error⟩
      | .error e _ => ⟨[], s, some e⟩

/-- How a run that has stopped without an error has ended. -/
def Machine.ending (m : Machine) (steps : Nat) : Outcome :=
  if m.isHalted then .halted steps else .stepLimit steps

namespace Machine

variable {m : Machine}

theorem isHalted_iff : m.isHalted = true ↔ m.current? = none := by
  unfold isHalted current? Program.length
  rw [List.getElem?_eq_none_iff, decide_eq_true_eq]

end Machine

namespace State

variable {bound : Option UInt64} {s t : State} {n : Nat}

theorem journey_of_halted (hi : s.machine.current? = none) (n : Nat) : s.journey n = ⟨[], s, none⟩ := by
  cases n with
  | zero => rfl
  | succ n => simp only [journey, hi]

theorem journey_of_ok (hst : Machine.step.run s = .ok () t) :
    s.journey (n + 1) = ⟨s :: (t.journey n).earlier, (t.journey n).last, (t.journey n).error⟩ := by
  obtain ⟨i, -, hi, -⟩ := Machine.step_ok hst
  simp only [journey, hi, hst]

theorem journey_of_error {i : Instruction} {e : Error} (hi : s.machine.current? = some i)
    (hst : Machine.step.run s = .error e t) : s.journey (n + 1) = ⟨[], s, some e⟩ := by
  simp only [journey, hi, hst]

theorem Agrees.deliver (hst : t.Agrees s) (i : Instruction) (x : Value) :
    (t.deliver i x).Agrees (s.deliver i x) := by
  obtain ⟨hstore, hmachine⟩ := hst
  unfold State.deliver State.assign State.detachDx
  rw [hmachine]
  split
  · simp only [Agrees, hstore, and_self]
  · split
    · simp only [Agrees, hstore, and_self]
    · exact ⟨hstore, hmachine⟩

/-- What a step does to the store and the machine does not depend on the log. -/
theorem lockstep_agrees : Lockstep fun s t => t.Agrees s where
  log _ _ _ _ hst := hst
  next s t hst := by
    rw [hst.2]
    cases hi : s.machine.current? with
    | none => exact Or.inl ⟨rfl, rfl, rfl, rfl⟩
    | some i =>
      refine Or.inr ⟨i, i, rfl, rfl, by rw [hst.1], ?_⟩
      intro x _
      obtain ⟨hstore, hmachine⟩ := hst.deliver i x
      exact ⟨hstore, congrArg (Machine.retire · i.opcode) hmachine⟩

/-- Steps do not look at the bound or at the log. -/
theorem step_of_agrees (hst : t.Agrees (s.withBound bound)) :
    (∃ s' t', Machine.step.run s = .ok () s' ∧ Machine.step.run t = .ok () t' ∧
      t'.Agrees (s'.withBound bound)) ∨
      ∃ e s' t', Machine.step.run s = .error e s' ∧ Machine.step.run t = .error e t' := by
  have hlock := lockstep_agrees.step hst
  rw [run_step_withBound] at hlock
  cases hs : Machine.step.run s with
  | ok u s' =>
    rw [hs] at hlock
    obtain ⟨v, t', hv, ht, hst'⟩ | ⟨e, v, t', hv, -⟩ := hlock
    · cases hv
      exact Or.inl ⟨s', t', rfl, ht, hst'⟩
    · cases hv
  | error e s' =>
    rw [hs] at hlock
    obtain ⟨v, t', hv, -⟩ | ⟨e', v, t', hv, ht, -⟩ := hlock
    · cases hv
    · cases hv
      exact Or.inr ⟨e, s', t', rfl, ht⟩

/-- **Journeys do not depend on bounds and logs.** -/
theorem journey_withBound (n : Nat) : ∀ {s t : State}, t.Agrees (s.withBound bound) →
    (t.journey n).last.Agrees ((s.journey n).last.withBound bound) ∧
      (t.journey n).error = (s.journey n).error ∧
      (t.journey n).earlier.length = (s.journey n).earlier.length := by
  induction n with
  | zero => intro s t hst; exact ⟨hst, rfl, rfl⟩
  | succ n ih =>
    intro s t hst
    have hcurrent : t.machine.current? = s.machine.current? := by rw [hst.2]; rfl
    cases hi : s.machine.current? with
    | none =>
      rw [journey_of_halted hi, journey_of_halted (hcurrent.trans hi)]
      exact ⟨hst, rfl, rfl⟩
    | some i =>
      obtain ⟨s', t', hs, ht, hst'⟩ | ⟨e, s', t', hs, ht⟩ := step_of_agrees hst
      · obtain ⟨hlast, herror, hlength⟩ := ih hst'
        rw [journey_of_ok hs, journey_of_ok ht]
        exact ⟨hlast, herror, congrArg (· + 1) hlength⟩
      · rw [journey_of_error hi hs, journey_of_error (hcurrent.trans hi) ht]
        exact ⟨hst, rfl, rfl⟩

end State

namespace Machine

/-- **A run under a bound is a journey of as many steps.** -/
theorem runFrom_journey {bound : UInt64} (n : Nat) : ∀ (steps : Nat) (s : State),
    s.machine.settings.maxSteps = some bound → bound.toNat = steps + n →
    ∃ t, t.Agrees (s.journey n).last ∧ (runFrom steps s.machine.remaining).run s =
      match (s.journey n).error with
      | none => .ok ((s.journey n).last.machine.ending (steps + (s.journey n).earlier.length)) t
      | some e => .error e t := by
  have hhalted : ∀ (steps : Nat) (s : State), s.machine.current? = none →
      (runFrom steps s.machine.remaining).run s = .ok (s.machine.ending steps) s := by
    intro steps s hi
    unfold ending
    rw [run_runFrom_remaining, if_pos (isHalted_iff.2 hi), if_pos (isHalted_iff.2 hi)]
  have hgoes : ∀ {s : State} {i : Instruction}, s.machine.current? = some i →
      ¬ s.machine.isHalted = true := by
    intro s i hi
    rw [isHalted_iff, hi]
    exact Option.some_ne_none i
  -- `steps` and `n` share the bound, so it is reached when the journey has no steps left
  induction n with
  | zero =>
    intro steps s hbound hcount
    refine ⟨s, .refl s, ?_⟩
    cases hi : s.machine.current? with
    | none => exact hhalted steps s hi
    | some i =>
      have hspent : s.machine.isSpent steps = true := isSpent_eq_true.2 ⟨bound, hbound, by omega⟩
      have hending : s.machine.ending steps = .stepLimit steps := if_neg (hgoes hi)
      rw [run_runFrom_remaining, if_neg (hgoes hi), if_pos hspent, ← hending]
      rfl
  | succ n ih =>
    intro steps s hbound hcount
    cases hi : s.machine.current? with
    | none =>
      rw [State.journey_of_halted hi]
      exact ⟨s, .refl s, hhalted steps s hi⟩
    | some i =>
      have hfree : ¬ s.machine.isSpent steps = true := by
        rw [isSpent_eq_true]
        rintro ⟨b, hb, hle⟩
        rw [hbound] at hb
        cases hb
        omega
      rw [run_runFrom_remaining, if_neg (hgoes hi), if_neg hfree]
      cases hst : step.run s with
      | error e t =>
        obtain ⟨-, rfl⟩ := step_error hst
        rw [State.journey_of_error hi hst]
        exact ⟨s.refused, s.refused_agrees, rfl⟩
      | ok u t =>
        have hsame : t.machine.settings.maxSteps = some bound := by rw [(step_moves hst).1, hbound]
        obtain ⟨u, hagrees, hrun⟩ := ih (steps + 1) t hsame (by omega)
        rw [State.journey_of_ok hst]
        refine ⟨u, hagrees, ?_⟩
        simp only [hrun, List.length_cons, Nat.add_assoc, Nat.add_comm 1]

end Machine

end Octet
