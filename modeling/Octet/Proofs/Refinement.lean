import Octet.Proofs.Encoding

/-!
# Machines that write through behave as word machines

As long as no view is replaced, the bytes of a machine stay an encoding of a word machine: an instruction
computes the number that the word machine stores, and the write that follows is that store. Each call is
then answered alike on both sides, whether it succeeds or fails.

* `Mirrors`: a machine and a word machine stand for each other.
* `Mirrors.attempt`: an instruction computes the number that the word machine stores, or both fail.
* `Mirrors.step`, `Mirrors.runFrom`, `Mirrors.perform`: a step, a run and a call.
* `session_wordMachine`: **both answer every sequence of calls alike and read alike afterwards.**
-/

namespace Octet

open Scope

/-- A store does not move the machine. -/
@[simp] theorem WordMachine.ip_store (f : WordMachine) (name : String) (z : Int) : (f.store name z).ip = f.ip := by
  unfold store
  split <;> rfl

/-- A machine that writes through, with its bytes, and a word machine that stand for each other. -/
structure Mirrors (p : Program) (settings : Settings) (data registers : Handle) (s : State)
    (f : WordMachine) : Prop where
  mode : settings.cwdMode = .writeThrough
  program : s.machine.program = p
  settings : s.machine.settings = settings
  ip : s.machine.ip = f.ip
  lookup : ∀ name, s.machine.scope.lookup? name = p.place data registers name
  holds : Holds p.declarations data registers s.store f

namespace Mirrors

variable {p : Program} {settings : Settings} {data registers : Handle} {s t : State} {f g : WordMachine}

/-- Only the machine and the bytes matter. -/
theorem congr (hm : Mirrors p settings data registers s f) (hmachine : t.machine = s.machine)
    (hstore : t.store = s.store) : Mirrors p settings data registers t f :=
  ⟨hm.mode, hmachine ▸ hm.program, hmachine ▸ hm.settings, hmachine ▸ hm.ip, hmachine ▸ hm.lookup,
    hstore ▸ hm.holds⟩

/-- A name of the word machine has a view that reads as its cell. -/
theorem get_ok (hm : Mirrors p settings data registers s f) {name : String} {c : Cell}
    (hc : f.read name = .ok c) :
    ∃ v, p.place data registers name = some v ∧ s.machine.scope.get name = .ok v ∧
      v.read s.store = c.value := by
  have hplace := hm.holds.read?_place name
  unfold WordMachine.read at hc
  cases hr : f.read? name with
  | none => rw [hr] at hc; cases hc
  | some c' =>
    rw [hr] at hc hplace
    cases hc
    obtain ⟨v, hv, hread⟩ := Option.map_eq_some_iff.1 hplace
    refine ⟨v, hv, ?_, hread⟩
    unfold Scope.get
    rw [hm.lookup, hv]

theorem get_error (hm : Mirrors p settings data registers s f) {name : String} {e : Error}
    (he : f.read name = .error e) : s.machine.scope.get name = .error e := by
  have hplace := hm.holds.read?_place name
  unfold WordMachine.read at he
  cases hr : f.read? name with
  | some c => rw [hr] at he; cases he
  | none =>
    rw [hr] at he hplace
    cases he
    unfold Scope.get
    rw [hm.lookup, Option.map_eq_none_iff.1 hplace]

/-- **A name reads as its cell.** -/
theorem read (hm : Mirrors p settings data registers s f) (name : String) :
    s.machine.read s.store name = (f.read name).map Cell.value := by
  unfold Machine.read Scope.read
  cases hr : f.read name with
  | ok c =>
    obtain ⟨v, -, hv, hread⟩ := hm.get_ok hr
    rw [hv]
    exact congrArg Except.ok hread
  | error e => rw [hm.get_error hr]; rfl

/-- A source has the width and the number that it has in the word machine. -/
theorem resolve_ok (hm : Mirrors p settings data registers s f) {w w' : Width} {operand : Operand} {z : Int}
    (hz : f.source w operand = .ok (w', z)) :
    ∃ x, s.machine.scope.resolve s.store operand w.bytes = .ok x ∧ x.width = w' ∧ (x.magnitude : Int) = z := by
  cases operand with
  | literal y =>
    cases hz
    exact ⟨Value.ofInt y w, Value.make_bytes y w, rfl, Value.magnitude_ofInt y w⟩
  | name n =>
    have hread := hm.read n
    rw [WordMachine.source] at hz
    cases hr : f.read n with
    | error e => rw [hr] at hz; cases hz
    | ok c =>
      rw [hr] at hz hread
      cases hz
      exact ⟨c.value, hread, rfl, rfl⟩

theorem resolve_error (hm : Mirrors p settings data registers s f) {w : Width} {operand : Operand} {e : Error}
    (he : f.source w operand = .error e) : s.machine.scope.resolve s.store operand w.bytes = .error e := by
  cases operand with
  | literal y => cases he
  | name n =>
    have hread := hm.read n
    rw [WordMachine.source] at he
    cases hr : f.read n with
    | ok c => rw [hr] at he; cases he
    | error e' =>
      rw [hr] at he hread
      cases he
      exact hread

/-- The low byte of `ax`, extended. -/
theorem compute_cbw (hm : Mirrors p settings data registers s f) :
    s.machine.compute s.store .cbw =
      .ok (Value.ofInt (f.word .a % 256).toUInt8.toInt8.toInt Width.word) := by
  have hal : s.machine.scope.read s.store Register.al.name = .ok (f.register Register.al).value :=
    hm.read Register.al.name
  have hsigned : (f.register Register.al).value.signed = (f.word .a % 256).toUInt8.toInt8.toInt := by
    show Int.bmod _ 256 = ((f.word .a % 256).toUInt8.toBitVec.toInt)
    rw [BitVec.toInt_eq_toNat_bmod]
    rfl
  simp only [Machine.compute, hal, ok_bind]
  rw [← hsigned]
  exact Value.extend_bytes (w := Width.word) (Nat.le_succ 1)

/-- The sign of `ax`. -/
theorem compute_cwd (hm : Mirrors p settings data registers s f) :
    s.machine.compute s.store .cwd =
      .ok (Value.ofInt (if 0x8000 ≤ f.word .a then 0xFFFF else 0) Width.word) := by
  have hax : s.machine.scope.read s.store Register.ax.name = .ok (f.register Register.ax).value :=
    hm.read Register.ax.name
  simp only [Machine.compute, hax, ok_bind]
  exact Machine.upperHalf_word rfl

/-- **An instruction computes the number that the word machine stores, or both fail alike.** -/
theorem attempt (hm : Mirrors p settings data registers s f) (i : Instruction) :
    (∃ z v, f.execute i = .ok (f.store i.target z) ∧ p.place data registers i.target = some v ∧
      s.machine.attempt s.store i = .ok (Value.ofInt z v.width)) ∨
    ∃ e, f.execute i = .error e ∧ s.machine.attempt s.store i = .error e := by
  cases i with
  | binary operation target operand =>
    -- both sides look at the target, then at the source, then at the widths
    cases hc : f.read target with
    | error e =>
      have hg := hm.get_error hc
      refine Or.inr ⟨e, by simp [WordMachine.execute, hc], ?_⟩
      exact Machine.attempt_of_compute_error (by simp [Machine.compute, hg])
    | ok c =>
      obtain ⟨v, hplace, hv, hread⟩ := hm.get_ok hc
      have hw : v.width = c.width := congrArg Value.width hread
      cases hz : f.source c.width operand with
      | error e =>
        have hx := hm.resolve_error hz
        rw [← hw] at hx
        refine Or.inr ⟨e, by simp [WordMachine.execute, hc, hz], ?_⟩
        exact Machine.attempt_of_compute_error (by simp [Machine.compute, hv, hx])
      | ok wz =>
        obtain ⟨w, z⟩ := wz
        obtain ⟨x, hx, rfl, hxz⟩ := hm.resolve_ok hz
        rw [← hw] at hx
        have ha := Machine.attempt_binary operation hv hx
        rw [hread, hxz] at ha
        by_cases hww : x.width = v.width
        · rw [if_pos hww] at ha
          refine Or.inl ⟨_, v, ?_, hplace, ha⟩
          simp only [WordMachine.execute, hc, hz, ok_bind, hww, hw, if_true]
          rfl
        · rw [if_neg hww] at ha
          exact Or.inr ⟨_, by simp [WordMachine.execute, hc, hz, hw ▸ hww, hw], ha⟩
  | cbw =>
    have hv : s.machine.scope.lookup? Register.ax.name = some (Register.ax.view registers) := hm.lookup _
    refine Or.inl ⟨_, Register.ax.view registers, rfl, rfl, ?_⟩
    exact Machine.attempt_of_compute hm.compute_cbw
      (by unfold Scope.get; simp only [Instruction.target, hv]) rfl
  | cwd =>
    have hv : s.machine.scope.lookup? Register.dx.name = some (Register.dx.view registers) := hm.lookup _
    refine Or.inl ⟨_, Register.dx.view registers, rfl, rfl, ?_⟩
    exact Machine.attempt_of_compute hm.compute_cwd
      (by unfold Scope.get; simp only [Instruction.target, hv]) rfl

/-- A write through the view of a name is a store under that name. -/
theorem assign (hm : Mirrors p settings data registers s f) {name : String} {v : View}
    (hv : p.place data registers name = some v) (z : Int) :
    Mirrors p settings data registers (s.assign name (Value.ofInt z v.width)) (f.store name z) := by
  have hlookup : s.machine.scope.lookup? name = some v := by rw [hm.lookup, hv]
  have hmachine := State.machine_assign s name (Value.ofInt z v.width)
  refine ⟨hm.mode, ?_, ?_, ?_, ?_, ?_⟩
  · rw [hmachine]; exact hm.program
  · rw [hmachine]; exact hm.settings
  · rw [hmachine, WordMachine.ip_store]; exact hm.ip
  · rw [hmachine]; exact hm.lookup
  · rw [State.store_assign hlookup]; exact hm.holds.patch hv z

/-- A machine that writes through replaces no view. -/
theorem deliver (hm : Mirrors p settings data registers s f) (i : Instruction) (x : Value) :
    s.deliver i x = s.assign i.target x := by
  have hr : s.machine.rebinds i = false := by
    unfold Machine.rebinds
    rw [hm.settings, hm.mode]
    simp
  unfold State.deliver
  rw [hr]
  rfl

theorem retired (hm : Mirrors p settings data registers s f) (i : Instruction) :
    Mirrors p settings data registers (s.retired i) { f with ip := f.ip + 1 } :=
  ⟨hm.mode, hm.program, hm.settings, congrArg (· + 1) hm.ip, hm.lookup,
    hm.holds.ne, hm.holds.roomData, hm.holds.roomRegisters, hm.holds.word, hm.holds.cell⟩

/-- **A step is a step of the word machine.** -/
theorem step (hm : Mirrors p settings data registers s f) :
    (∃ t g, Machine.step.run s = .ok () t ∧ f.step p = .ok g ∧ Mirrors p settings data registers t g) ∨
    ∃ e t, Machine.step.run s = .error e t ∧ f.step p = .error e ∧ Mirrors p settings data registers t f := by
  have hrefused : Mirrors p settings data registers s.refused f :=
    hm.congr (State.machine_refused s) (State.store_refused s)
  rw [Machine.run_step]
  unfold Machine.next Machine.current? WordMachine.step
  rw [hm.program, hm.ip]
  cases p.code[f.ip]? with
  | none => exact Or.inr ⟨_, _, rfl, rfl, hrefused⟩
  | some i =>
    obtain ⟨z, v, hf, hv, hx⟩ | ⟨e, hf, he⟩ := hm.attempt i
    · -- the entry in the log comes first and changes neither bytes nor machine
      have hannounced : Mirrors p settings data registers (s.announced i) f :=
        hm.congr (State.machine_announced s i) (State.store_announced s i)
      have hstored := (hannounced.assign hv z).retired i
      rw [← hannounced.deliver, WordMachine.ip_store] at hstored
      simp only [hf, hx]
      exact Or.inl ⟨_, _, rfl, rfl, hstored⟩
    · simp only [hf, he]
      exact Or.inr ⟨_, _, rfl, rfl, hrefused⟩

theorem isSpent (hm : Mirrors p settings data registers s f) (steps : Nat) :
    s.machine.isSpent steps = settings.maxSteps.any fun n => decide (n.toNat ≤ steps) := by
  unfold Machine.isSpent
  rw [hm.settings]
  cases settings.maxSteps <;> rfl

/-- **A run is a run of the word machine.** -/
theorem runFrom (left : Nat) : ∀ (steps : Nat) {s : State} {f : WordMachine}, Mirrors p settings data registers s f →
    (∃ o t g, (Machine.runFrom steps left).run s = .ok o t ∧
      WordMachine.runFrom p settings.maxSteps steps left f = (.ok (.ended o), g) ∧
        Mirrors p settings data registers t g) ∨
    ∃ e t g, (Machine.runFrom steps left).run s = .error e t ∧
      WordMachine.runFrom p settings.maxSteps steps left f = (.error e, g) ∧
        Mirrors p settings data registers t g := by
  induction left with
  | zero => intro steps s f hm; exact Or.inl ⟨_, s, f, rfl, rfl, hm⟩
  | succ left ih =>
    intro steps s f hm
    rw [Machine.run_runFrom_succ, WordMachine.runFrom, hm.isSpent]
    split
    · exact Or.inl ⟨_, s, f, rfl, rfl, hm⟩
    · obtain ⟨t, g, hs, hf, hm'⟩ | ⟨e, t, hs, hf, hm'⟩ := hm.step
      · rw [hs, hf]
        exact ih (steps + 1) hm'
      · rw [hs, hf]
        exact Or.inr ⟨e, t, f, rfl, rfl, hm'⟩

/-- **A write from outside is a write to the word machine.** -/
theorem write (hm : Mirrors p settings data registers s f) (name : String) (x : Value) :
    (∃ g, s.machine.scope.admit name x = .ok () ∧ f.write name x = .ok g ∧
      Mirrors p settings data registers (s.assign name x) g) ∨
    ∃ e, s.machine.scope.admit name x = .error e ∧ f.write name x = .error e := by
  unfold Scope.admit WordMachine.write
  cases hc : f.read name with
  | error e => exact Or.inr ⟨e, by rw [hm.get_error hc]; rfl, rfl⟩
  | ok c =>
    obtain ⟨v, hplace, hv, hread⟩ := hm.get_ok hc
    have hw : v.width = c.width := congrArg Value.width hread
    rw [hv, ok_bind, ok_bind, hw]
    by_cases hx : x.width = c.width
    · -- a value of the right width is the reduction of its own magnitude
      have hassign := hm.assign hplace x.magnitude
      rw [hw, ← hx, Value.ofInt_magnitude] at hassign
      exact Or.inl ⟨_, if_pos hx, if_pos hx, hassign⟩
    · exact Or.inr ⟨_, if_neg hx, if_neg hx⟩

/-- **Every call is answered alike.** -/
theorem perform (hm : Mirrors p settings data registers s f) (c : Call) :
    (s.perform c).1 = (f.perform p settings.maxSteps c).1 ∧
      Mirrors p settings data registers (s.perform c).2 (f.perform p settings.maxSteps c).2 := by
  cases c with
  | step =>
    rw [State.perform_step, WordMachine.perform]
    obtain ⟨t, g, hs, hf, hm'⟩ | ⟨e, t, hs, hf, hm'⟩ := hm.step
    · rw [hs, hf]; exact ⟨rfl, hm'⟩
    · rw [hs, hf]; exact ⟨rfl, hm'⟩
  | run =>
    have hleft : s.machine.remaining = p.length - f.ip := by
      unfold Machine.remaining
      rw [hm.program, hm.ip]
    rw [State.perform_run, Machine.run_run, WordMachine.perform, hleft]
    obtain ⟨o, t, g, hs, hf, hm'⟩ | ⟨e, t, g, hs, hf, hm'⟩ := runFrom (p.length - f.ip) 0 hm
    · rw [hs, hf]; exact ⟨rfl, hm'⟩
    · rw [hs, hf]; exact ⟨rfl, hm'⟩
  | write name x =>
    rw [State.perform_write, WordMachine.perform]
    obtain ⟨g, hs, hf, hm'⟩ | ⟨e, hs, hf⟩ := hm.write name x
    · rw [hs, hf]; exact ⟨rfl, hm'⟩
    · rw [hs, hf]; exact ⟨rfl, hm⟩

/-- A declared variable has a cell of its size. -/
theorem declared (hm : Mirrors p settings data registers s f) (hnodup : (p.declarations.map Declaration.name).Nodup)
    (hfree : ∀ d ∈ p.declarations, Register.ofName? d.name = none) {d : Declaration} (hd : d ∈ p.declarations) :
    ∃ c, f.cell d.name = some c ∧ c.size = d.size ∧ s.machine.read s.store d.name = .ok c.value := by
  have hwidth := map_width_find?_layout data d.name p.declarations 0
  rw [find?_declaration hnodup hd] at hwidth
  obtain ⟨v, hv, hvw⟩ := Option.map_eq_some_iff.1 hwidth
  have hcell := hm.holds.cell d.name
  rw [hv] at hcell
  obtain ⟨c, hc, hcv⟩ := Option.map_eq_some_iff.1 hcell.symm
  have hsize : c.size.width = d.size.width := (congrArg Value.width hcv).trans hvw
  refine ⟨c, hc, DataSize.width_injective hsize, ?_⟩
  rw [hm.read]
  unfold WordMachine.read WordMachine.read?
  rw [hfree d hd, hc]
  rfl

end Mirrors

/-- **Machines that write through behave as word machines.** Both answer every sequence of steps, runs
and writes alike, errors included, and afterwards they are at the same instruction and every register
and every declared variable reads alike. -/
theorem session_wordMachine {p : Program} {settings : Settings} {w w' : World} {m : Machine}
    (hload : (Machine.load p settings).run w = .ok m w') (hmode : settings.cwdMode = .writeThrough)
    (calls : List Call) :
    let s := session State.perform ⟨w', m⟩ calls
    let f := session (WordMachine.perform p settings.maxSteps) (WordMachine.start p) calls
    s.1 = f.1 ∧ s.2.machine.ip = f.2.ip ∧
      (∀ r : Register, s.2.machine.read s.2.store r.name = .ok (f.2.register r).value) ∧
      ∀ d ∈ p.declarations, ∃ c, f.2.cell d.name = some c ∧ c.size = d.size ∧
        s.2.machine.read s.2.store d.name = .ok c.value := by
  intro s f
  obtain ⟨scope, rfl, hl⟩ := Machine.load_ok hload
  have hstart : Mirrors p settings scope.data scope.registers ⟨w', ⟨p, settings, scope, 0, .zero⟩⟩
      (WordMachine.start p) := ⟨hmode, rfl, rfl, rfl, hl.lookup?, hl.holds⟩
  obtain ⟨hanswers, hm⟩ := session_related (R := Mirrors p settings scope.data scope.registers)
    (fun _ _ c h => h.perform c) calls _ _ hstart
  refine ⟨hanswers, hm.ip, ?_, ?_⟩
  · intro r
    refine (hm.read r.name).trans ?_
    unfold WordMachine.read WordMachine.read?
    rw [Register.ofName?_name]
    rfl
  · intro d hd
    exact hm.declared hl.nodup hl.free hd

/-- A run that fails halfway, a write to a half register and a step that fails again. -/
theorem session_wordMachine_halves :
    ∃ m w', (Machine.load Program.overfull .standard).run .empty = .ok m w' ∧
      let s := session State.perform ⟨w', m⟩ [.run, .write "dh" (.ofInt 18 .byte), .step]
      s.1 = [.error (.widthMismatch 1 2), .ok .done, .error (.widthMismatch 1 2)] ∧
        s.2.machine.ip = 3 ∧ s.2.machine.read s.2.store "dx" = .ok (.ofInt 0x12C7 .word) ∧
          s.2.machine.read s.2.store "count" = .ok (.ofInt 200 .byte) := by
  refine ⟨_, _, rfl, ?_⟩
  obtain ⟨hanswers, hip, hregisters, hvariables⟩ := @session_wordMachine Program.overfull
    .standard .empty _ _ rfl rfl [.run, .write "dh" (.ofInt 18 .byte), .step]
  obtain ⟨c, hc, -, hcount⟩ := hvariables _ List.mem_cons_self
  cases hc
  exact ⟨hanswers.trans rfl, hip.trans rfl, (hregisters Register.dx).trans rfl, hcount.trans rfl⟩

end Octet
