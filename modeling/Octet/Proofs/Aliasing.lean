import Octet.Proofs.Placement
import Octet.Proofs.Runs

/-!
# What `cwd` does to aliasing when it rebinds

A whole register and its halves are views of the same bytes, so a word is always put together from its
halves. A `cwd` that rebinds ends this for `dx`: from the first one on `dx` has a block of its own, `dl`
and `dh` keep the old bytes, and each side changes only when it is named.

* `State.targets`: the names that a call gives values.
* `Confined`: something that changes only when certain names are given values.
* `Confined.perform`: **what single instructions and writes leave alone, a whole call leaves alone.**
* `rebind_aliasing`: **which registers alias each other**, before and after the first `cwd`.
-/

namespace Octet

open Scope

/-- The instructions that a call executes. -/
def State.executed (s : State) (c : Call) : List Instruction :=
  (s.machine.program.code.drop s.machine.ip).take ((s.perform c).2.machine.ip - s.machine.ip)

/-- The names that a call gives values: the name that is written, or the targets of what is executed. -/
def State.targets (s : State) : Call → List String
  | .write name _ => [name]
  | c => (s.executed c).map Instruction.target

/-- While `P` holds, `f` changes only when one of `names` is given a value. -/
structure Confined {α : Type} (P : State → Prop) (names : List String) (f : State → α) : Prop where
  log : ∀ s log, f { s with log } = f s
  execute : ∀ s i x, P s → s.machine.current? = some i → s.machine.attempt s.store i = .ok x →
    i.target ∉ names → f ((s.deliver i x).retired i) = f s
  assign : ∀ s name x, P s → s.machine.scope.admit name x = .ok () → name ∉ names → f (s.assign name x) = f s

/-- A step or a run is some successful steps and then an answer, or one more step, which fails. -/
theorem State.perform_answers (s : State) {c : Call} (hc : c = .step ∨ c = .run) :
    ∃ k t, Machine.Steps k s t ∧
      ((∃ reply, s.perform c = (.ok reply, t)) ∨ ∃ e, s.perform c = (.error e, t.refused)) := by
  rcases hc with rfl | rfl
  · rw [State.perform_step]
    cases hst : Machine.step.run s with
    | ok _ t => exact ⟨1, t, .succ hst (.zero t), Or.inl ⟨_, rfl⟩⟩
    | error e t =>
      obtain ⟨-, rfl⟩ := Machine.step_error hst
      exact ⟨0, s, .zero s, Or.inr ⟨e, rfl⟩⟩
  · obtain ⟨k, t, hsteps, -, hend⟩ := s.perform_run_cases
    refine ⟨k, t, hsteps, ?_⟩
    obtain ⟨-, hrun⟩ | ⟨-, -, hrun⟩ | ⟨-, -, e, -, hrun⟩ := hend
    · exact Or.inl ⟨_, hrun⟩
    · exact Or.inl ⟨_, hrun⟩
    · exact Or.inr ⟨e, hrun⟩

/-- A step or a run is some successful steps and at most one step that fails. -/
theorem State.perform_steps (s : State) {c : Call} (hc : c = .step ∨ c = .run) :
    ∃ k t, Machine.Steps k s t ∧ ((s.perform c).2 = t ∨ (s.perform c).2 = t.refused) := by
  obtain ⟨k, t, hsteps, ⟨reply, hanswer⟩ | ⟨e, hanswer⟩⟩ := s.perform_answers hc
  · exact ⟨k, t, hsteps, Or.inl (by rw [hanswer])⟩
  · exact ⟨k, t, hsteps, Or.inr (by rw [hanswer])⟩

/-- The instructions that are left are the next one and those after it. -/
theorem Machine.drop_code {m : Machine} {i : Instruction} (hi : m.current? = some i) :
    m.program.code.drop m.ip = i :: m.program.code.drop (m.ip + 1) := by
  obtain ⟨hlt, hi⟩ := List.getElem?_eq_some_iff.1 hi
  rw [← hi]
  exact List.drop_eq_getElem_cons hlt

namespace Confined

variable {α : Type} {P : State → Prop} {names : List String} {f : State → α} {s t : State}

theorem announced (hf : Confined P names f) (s : State) (i : Instruction) : f (s.announced i) = f s := by
  unfold State.announced
  split
  · exact hf.log s _
  · rfl

theorem refused (hf : Confined P names f) (s : State) : f s.refused = f s := by
  unfold State.refused
  split
  · rfl
  · exact hf.announced s _

/-- A step changes `f` only if the next instruction has one of the names as its target. -/
theorem step (hf : Confined P names f) (hP : Stable P) (hs : P s) (hst : Machine.step.run s = .ok () t) :
    ∃ i, s.machine.current? = some i ∧ (i.target ∉ names → f t = f s) := by
  obtain ⟨i, x, hi, hx, rfl⟩ := Machine.step_ok hst
  refine ⟨i, hi, ?_⟩
  intro hn
  rw [← hf.announced s i]
  refine hf.execute (s.announced i) i x (hP.announced hs i) ?_ ?_ hn
  · rw [State.machine_announced, hi]
  · rw [State.machine_announced, State.store_announced, hx]

theorem steps (hf : Confined P names f) (hP : Stable P) {k : Nat} (h : Machine.Steps k s t) (hs : P s)
    (hn : ∀ i ∈ (s.machine.program.code.drop s.machine.ip).take k, i.target ∉ names) : f t = f s := by
  induction h with
  | zero s => rfl
  | @succ k s v t hst _ ih =>
    obtain ⟨i, hi, hkeep⟩ := hf.step hP hs hst
    obtain ⟨-, hprogram, hip⟩ := Machine.step_moves hst
    rw [Machine.drop_code hi, List.take_succ_cons] at hn
    have hrest : f t = f v := by
      refine ih (hP.step_ok hs hst) ?_
      rw [hprogram, hip]
      exact fun j hj => hn j (List.mem_cons_of_mem _ hj)
    rw [hrest]
    exact hkeep (hn i List.mem_cons_self)

/-- **What single instructions and writes leave alone, a whole call leaves alone.** -/
theorem perform (hf : Confined P names f) (hP : Stable P) (hs : P s) (c : Call)
    (hc : ∀ name ∈ s.targets c, name ∉ names) : f (s.perform c).2 = f s := by
  have hsteps : c = .step ∨ c = .run → (∀ i ∈ s.executed c, i.target ∉ names) → f (s.perform c).2 = f s := by
    intro hc hn
    obtain ⟨k, t, hk, hend⟩ := s.perform_steps hc
    have hip : (s.perform c).2.machine.ip = s.machine.ip + k := by
      rw [← hk.moves.2.2]
      rcases hend with h | h
      · rw [h]
      · rw [h, State.machine_refused]
    have hf' : f (s.perform c).2 = f t := by
      rcases hend with h | h
      · rw [h]
      · rw [h, hf.refused]
    rw [hf']
    refine hf.steps hP hk hs ?_
    unfold State.executed at hn
    rw [hip, Nat.add_sub_cancel_left] at hn
    exact hn
  cases c with
  | step => exact hsteps (Or.inl rfl) fun i hi => hc _ (List.mem_map_of_mem hi)
  | run => exact hsteps (Or.inr rfl) fun i hi => hc _ (List.mem_map_of_mem hi)
  | write name x =>
    rw [State.perform_write]
    cases ha : s.machine.scope.admit name x with
    | error e => rfl
    | ok _ => exact hf.assign s name x hs ha (hc name List.mem_cons_self)

end Confined

/-- The two phases of a machine that rebinds: `dx` is in its place, or in a block of its own. -/
structure Rebinding (p : Program) (data registers : Handle) (s : State) : Prop where
  mode : s.machine.settings.cwdMode = .rebind
  phase : ∃ v, Placed p data registers v s ∧ (s.machine.tally.cwd = 0 → v = Register.dx.view registers) ∧
    (0 < s.machine.tally.cwd → v.handle ≠ data ∧ v.handle ≠ registers)

/-- Only an executed `cwd` is counted as one. -/
theorem State.cwd_retired (s : State) (i : Instruction) :
    (s.retired i).machine.tally.cwd = if i = .cwd then s.machine.tally.cwd + 1 else s.machine.tally.cwd := by
  cases i with
  | binary operation target source => cases operation <;> rfl
  | cbw => rfl
  | cwd => rfl

theorem rebinding_stable (p : Program) (data registers : Handle) : Stable (Rebinding p data registers) where
  log s log hs := by
    obtain ⟨v, hplaced, hphase⟩ := hs.phase
    exact ⟨hs.mode, v, hplaced.congr rfl rfl, hphase⟩
  assign s name x hs ha := by
    obtain ⟨v, hplaced, hphase⟩ := hs.phase
    refine ⟨?_, v, hplaced.assign ha, ?_⟩
    · rw [State.machine_assign]; exact hs.mode
    · rw [State.machine_assign]; exact hphase
  execute s i x hs _ hx := by
    obtain ⟨v, hplaced, hattached, hdetached⟩ := hs.phase
    obtain ⟨v', hplaced', hkeep, hnew⟩ := hplaced.deliver hx
    have hrebinds : s.machine.rebinds i = decide (i = .cwd) := by
      unfold Machine.rebinds
      rw [hs.mode]
      simp
    have hmode : (s.deliver i x).machine.settings.cwdMode = .rebind := by
      rw [(Machine.deliver_settings s i x).1]
      exact hs.mode
    refine ⟨hmode, v', hplaced'.retired i, ?_⟩
    rw [State.cwd_retired, State.tally_deliver]
    by_cases hi : i = .cwd
    · rw [if_pos hi]
      rw [decide_eq_true hi] at hrebinds
      exact ⟨by omega, fun _ => hnew hrebinds⟩
    · rw [if_neg hi]
      rw [decide_eq_false hi] at hrebinds
      rw [hkeep hrebinds]
      exact ⟨hattached, hdetached⟩

/-- The second phase: at least one `cwd` has been executed. -/
structure Detached (p : Program) (data registers : Handle) (s : State) : Prop extends Rebinding p data registers s where
  executed : 0 < s.machine.tally.cwd

theorem detached_stable (p : Program) (data registers : Handle) : Stable (Detached p data registers) where
  log s log hs := ⟨(rebinding_stable p data registers).log s log hs.toRebinding, hs.executed⟩
  assign s name x hs ha := by
    refine ⟨(rebinding_stable p data registers).assign s name x hs.toRebinding ha, ?_⟩
    rw [State.machine_assign]
    exact hs.executed
  execute s i x hs hi hx := by
    refine ⟨(rebinding_stable p data registers).execute s i x hs.toRebinding hi hx, ?_⟩
    have := hs.executed
    rw [State.cwd_retired, State.tally_deliver]
    split <;> omega

namespace Detached

variable {p : Program} {data registers : Handle} {s : State} {name : String} {x : Value}

theorem view (hs : Detached p data registers s) :
    ∃ v, Placed p data registers v s ∧ v.handle ≠ data ∧ v.handle ≠ registers := by
  obtain ⟨v, hplaced, -, hdetached⟩ := hs.phase
  exact ⟨v, hplaced, hdetached hs.executed⟩

/-- Only `dl` and `dh` lead to the bytes that were those of `dx`. -/
theorem range_assign (hs : Detached p data registers s) (ha : s.machine.scope.admit name x = .ok ())
    (hn : name ∉ [Register.dl.name, Register.dh.name]) :
    (s.assign name x).store.range registers 6 2 = s.store.range registers 6 2 := by
  obtain ⟨v, hplaced, -, hne⟩ := hs.view
  obtain ⟨u, hu, hw⟩ := Scope.admit_ok ha
  have hfits := (hplaced.inside_of_lookup hu).fits hw
  rw [State.store_assign hu]
  refine Store.range_patch_of_disjoint hfits ?_
  obtain ⟨-, rfl⟩ | ⟨r, hr, rfl, rfl⟩ | ⟨-, hv⟩ := hplaced.view_cases hu
  · exact Or.inl (Ne.symm hne)
  · rw [Value.length_bytes, hw]
    exact Or.inr (Or.inr (Register.stop_le_of_ne registers hr hn))
  · obtain ⟨hh, -, -⟩ := find?_layout_bounds hv
    rw [hh]
    exact Or.inl (Ne.symm hplaced.ne)

theorem read_dx_assign (hs : Detached p data registers s) (ha : s.machine.scope.admit name x = .ok ())
    (hn : name ≠ Register.dx.name) :
    (s.assign name x).machine.read (s.assign name x).store Register.dx.name =
      s.machine.read s.store Register.dx.name := by
  obtain ⟨v, hplaced, hne⟩ := hs.view
  obtain ⟨u, hu, hw⟩ := Scope.admit_ok ha
  have hkeep := View.read_patch_of_disjoint (hplaced.inside_of_lookup hu) hw
    (hplaced.disjoint_dx hu hn (Or.inl hne))
  rw [hplaced.read_dx, (hplaced.assign ha).read_dx, State.store_assign hu, hkeep]

end Detached

theorem confined_halves (p : Program) (data registers : Handle) :
    Confined (Detached p data registers) [Register.dl.name, Register.dh.name]
      fun s => s.store.range registers 6 2 where
  log _ _ := rfl
  assign s name x hs ha hn := hs.range_assign ha hn
  execute s i x hs _ hx hn := by
    obtain ⟨-, ha, hd⟩ | ⟨-, -, hd⟩ := State.deliver_cases hx
    · show (s.deliver i x).store.range registers 6 2 = _
      rw [hd]
      exact hs.range_assign ha hn
    · obtain ⟨v, hplaced, -⟩ := hs.view
      show (s.deliver i x).store.range registers 6 2 = _
      rw [hd]
      unfold Store.range
      show List.take 2 (List.drop 6 ((s.store.alloc x.bytes).2.block registers)) = _
      rw [Store.block_alloc_of_has hplaced.hasRegisters]

theorem confined_dx (p : Program) (data registers : Handle) :
    Confined (Detached p data registers) [Register.dx.name]
      fun s => s.machine.read s.store Register.dx.name where
  log _ _ := rfl
  assign s name x hs ha hn := hs.read_dx_assign ha (by simpa using hn)
  execute s i x hs _ hx hn := by
    obtain ⟨-, ha, hd⟩ | ⟨hr, -, -⟩ := State.deliver_cases hx
    · show (s.deliver i x).machine.read (s.deliver i x).store Register.dx.name = _
      rw [hd]
      exact hs.read_dx_assign ha (by simpa using hn)
    · -- only `cwd` rebinds, and its target is `dx`
      rw [Machine.eq_cwd_of_rebinds hr] at hn
      exact absurd List.mem_cons_self hn

/-- **Which registers alias each other when `cwd` rebinds.** A word is put together from its halves, for
`dx` as long as no `cwd` has been executed. After that `dx` has a block that no other name leads to; the
last two bytes of the registers change only through `dl` and `dh`, and `dx` only through its own name. -/
theorem rebind_aliasing {p : Program} {settings : Settings} {w w' : World} {m : Machine}
    (hload : (Machine.load p settings).run w = .ok m w') (hmode : settings.cwdMode = .rebind)
    {s : State} (hs : Reaches ⟨w', m⟩ s) :
    (∀ bank : Bank, bank ≠ .d ∨ s.machine.tally.cwd = 0 →
      ∃ word low high, s.machine.read s.store (Register.mk bank .whole).name = .ok word ∧
        s.machine.read s.store (Register.mk bank .low).name = .ok low ∧
        s.machine.read s.store (Register.mk bank .high).name = .ok high ∧
        word.magnitude = low.magnitude + 256 * high.magnitude) ∧
    (0 < s.machine.tally.cwd →
      (∃ v, s.machine.scope.lookup? Register.dx.name = some v ∧
        ∀ name u, name ≠ Register.dx.name → s.machine.scope.lookup? name = some u → v.handle ≠ u.handle) ∧
      ∀ c, ((∀ name ∈ s.targets c, name ∉ [Register.dl.name, Register.dh.name]) →
          (s.perform c).2.store.range m.scope.registers 6 2 = s.store.range m.scope.registers 6 2) ∧
        (Register.dx.name ∉ s.targets c →
          (s.perform c).2.machine.read (s.perform c).2.store Register.dx.name =
            s.machine.read s.store Register.dx.name)) := by
  obtain ⟨scope, rfl, hl⟩ := Machine.load_ok hload
  have hstart : Rebinding p scope.data scope.registers ⟨w', ⟨p, settings, scope, 0, .zero⟩⟩ :=
    ⟨hmode, _, hl.placed, fun _ => rfl, fun h => absurd h (Nat.lt_irrefl 0)⟩
  have hnow := hs.invariant (rebinding_stable p scope.data scope.registers) hstart
  obtain ⟨v, hplaced, hattached, hdetached⟩ := hnow.phase
  refine ⟨?_, ?_⟩
  · intro bank hbank
    have hread : ∀ part, s.machine.read s.store (Register.mk bank part).name =
        .ok ((Register.view scope.registers ⟨bank, part⟩).read s.store) := by
      intro part
      refine hplaced.read_register ?_
      rcases hbank with hbank | hzero
      · exact Or.inl fun h => hbank (congrArg Register.bank h)
      · exact Or.inr (hattached hzero)
    exact ⟨_, _, _, hread .whole, hread .low, hread .high,
      Register.magnitude_read_whole hplaced.roomRegisters bank⟩
  · intro hexecuted
    have hphase : Detached p scope.data scope.registers s := ⟨hnow, hexecuted⟩
    obtain ⟨hdata, hregisters⟩ := hdetached hexecuted
    refine ⟨⟨v, hplaced.lookup_dx, ?_⟩, ?_⟩
    · intro name u hn hu
      obtain ⟨hname, -⟩ | ⟨r, -, -, rfl⟩ | ⟨-, hv⟩ := hplaced.view_cases hu
      · exact absurd hname hn
      · exact hregisters
      · rw [(find?_layout_bounds hv).1]
        exact hdata
    · intro c
      refine ⟨?_, ?_⟩
      · exact (confined_halves p scope.data scope.registers).perform (detached_stable p _ _) hphase c
      · intro hn
        refine (confined_dx p scope.data scope.registers).perform (detached_stable p _ _) hphase c ?_
        intro name hname hmem
        rw [List.mem_singleton] at hmem
        exact hn (hmem ▸ hname)

/-- After a `cwd`, a write to `dx` does not reach the bytes of `dl` and `dh`, and a run that adds to `dl`
does not change `dx`; `ax` is still put together from its halves. -/
theorem rebind_aliasing_overfull :
    ∃ m w', (Machine.load Program.overfull ⟨false, none, .rebind⟩).run .empty = .ok m w' ∧
      let s := (session State.perform ⟨w', m⟩ [.step, .step]).2
      s.machine.tally.cwd = 1 ∧ s.targets .run = ["dl"] ∧
        (∃ low high, s.machine.read s.store "al" = .ok low ∧ s.machine.read s.store "ah" = .ok high ∧
          low.magnitude + 256 * high.magnitude = 65534) ∧
        (s.perform (.write "dx" (.ofInt 7 .word))).2.store.range m.scope.registers 6 2 = [0, 0] ∧
        (s.perform .run).2.machine.read (s.perform .run).2.store "dx" = .ok (.ofInt (-1) .word) := by
  refine ⟨_, _, rfl, ?_⟩
  intro s
  obtain ⟨hwords, hdetached⟩ := @rebind_aliasing Program.overfull ⟨false, none, .rebind⟩ .empty _ _ rfl rfl
    s ⟨[.step, .step], rfl⟩
  obtain ⟨word, low, high, hword, hlow, hhigh, hsum⟩ := hwords .a (Or.inl (by decide))
  obtain ⟨-, hcalls⟩ := hdetached (by decide +kernel)
  have htargets : s.targets .run = ["dl"] := by decide +kernel
  have hax : s.machine.read s.store (Register.mk .a .whole).name = .ok (.ofInt 65534 .word) := by decide +kernel
  rw [hax] at hword
  cases hword
  refine ⟨by decide +kernel, htargets, ⟨low, high, hlow, hhigh, hsum.symm⟩, ?_, ?_⟩
  · refine ((hcalls (.write "dx" (.ofInt 7 .word))).1 ?_).trans (by decide +kernel)
    decide
  · refine ((hcalls .run).2 ?_).trans (by decide +kernel)
    rw [htargets]
    decide

end Octet
