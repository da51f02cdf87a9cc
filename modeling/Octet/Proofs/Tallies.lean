import Octet.Proofs.Placement
import Octet.Proofs.Runs

/-!
# What a tally counts

An instruction is counted when it has been executed, and instructions are executed in the order in which
they stand. So the tally of a machine is that of the instructions before its next one, whatever calls have
been made and however many of them have failed: a step that fails moves neither the index nor a count.

* `Tally.ofCode`: the tally of some instructions, each executed once.
* `Tally.count_ofCode`: its counts are the numbers of their opcodes.
* `tally_stable`: every call keeps the tally at the instructions before the next one.
* `tally_executed`: **in every reachable state the tally is that of the executed prefix**, and a run reports
  as many steps as it adds to it.
-/

namespace Octet

/-- The number of instructions that a run has executed. -/
def Outcome.steps : Outcome → Nat
  | halted steps | stepLimit steps => steps

namespace Tally

/-- The tally of some instructions, each executed once. -/
def ofCode (code : List Instruction) : Tally :=
  code.foldl (fun t i => t.record i.opcode) .zero

/-- An executed instruction adds one to the count of its opcode and to no other. -/
theorem count_record (t : Tally) (i : Instruction) (op : Opcode) :
    (t.record i.opcode).count op = t.count op + if i.opcode = op then 1 else 0 := by
  cases i with
  | binary operation target source => cases operation <;> cases op <;> rfl
  | cbw => cases op <;> rfl
  | cwd => cases op <;> rfl

theorem retired_record (t : Tally) (op : Opcode) : (t.record op).retired = t.retired + 1 := by
  cases op <;> rfl

/-- One more instruction at the end. -/
theorem ofCode_concat (code : List Instruction) (i : Instruction) :
    ofCode (code ++ [i]) = (ofCode code).record i.opcode := by
  unfold ofCode
  rw [List.foldl_append]
  rfl

theorem retired_ofCode (code : List Instruction) : (ofCode code).retired = code.length := by
  have key : ∀ t : Tally, (code.foldl (fun t i => t.record i.opcode) t).retired = t.retired + code.length := by
    induction code with
    | nil => intro t; rfl
    | cons i code ih =>
      intro t
      rw [List.foldl_cons, ih, retired_record, List.length_cons]
      omega
  exact (key .zero).trans (Nat.zero_add _)

/-- **The count of an opcode is the number of instructions with it.** -/
theorem count_ofCode (code : List Instruction) (op : Opcode) :
    (ofCode code).count op = (code.map Instruction.opcode).count op := by
  have key : ∀ t : Tally, (code.foldl (fun t i => t.record i.opcode) t).count op =
      t.count op + (code.map Instruction.opcode).count op := by
    induction code with
    | nil => intro t; rfl
    | cons i code ih =>
      intro t
      rw [List.foldl_cons, ih, count_record, List.map_cons, List.count_cons]
      simp only [beq_iff_eq]
      omega
  have hzero : zero.count op = 0 := by cases op <;> rfl
  rw [ofCode, key, hzero, Nat.zero_add]

/-- No instruction is counted in the total only. -/
theorem retired_eq_sum (code : List Instruction) :
    (ofCode code).retired = (ofCode code).count .mov + (ofCode code).count .add + (ofCode code).count .sub +
      (ofCode code).count .cbw + (ofCode code).count .cwd := by
  unfold ofCode
  refine List.foldlRecOn code _ (motive := fun t : Tally =>
    t.retired = t.count .mov + t.count .add + t.count .sub + t.count .cbw + t.count .cwd) rfl ?_
  intro t ht i _
  simp only [count_record, retired_record, ht]
  -- `define` is the only opcode outside the sum, and no instruction has it
  cases i with
  | binary operation target source => cases operation <;> simp [Instruction.opcode, Operation.opcode] <;> omega
  | cbw => simp [Instruction.opcode]; omega
  | cwd => simp [Instruction.opcode]; omega

end Tally

/-- **Every call keeps the tally at the instructions before the next one.** -/
theorem tally_stable :
    Stable fun s => s.machine.tally = Tally.ofCode (s.machine.program.code.take s.machine.ip) where
  log _ _ hs := hs
  assign s name x hs _ := by rw [State.machine_assign]; exact hs
  execute s i x hs hi _ := by
    obtain ⟨-, hprogram, hip⟩ := Machine.deliver_settings s i x
    have hcode : s.machine.program.code.take (s.machine.ip + 1) =
        s.machine.program.code.take s.machine.ip ++ [i] := by
      have hnext : s.machine.program.code[s.machine.ip]? = some i := hi
      rw [List.take_add_one, hnext]
      rfl
    show (s.deliver i x).machine.tally.record i.opcode =
      Tally.ofCode ((s.deliver i x).machine.program.code.take ((s.deliver i x).machine.ip + 1))
    rw [State.tally_deliver, hprogram, hip, hcode, Tally.ofCode_concat, hs]

/-- The total is the index of the next instruction as long as that is inside the program. -/
theorem State.retired_eq_ip {s : State} (hip : s.machine.ip ≤ s.machine.program.length)
    (htally : s.machine.tally = Tally.ofCode (s.machine.program.code.take s.machine.ip)) :
    s.machine.tally.retired = s.machine.ip := by
  rw [htally, Tally.retired_ofCode, List.length_take]
  exact Nat.min_eq_left hip

/-- A run moves the index by as many instructions as it reports. -/
theorem State.ip_of_perform_run {s t : State} {outcome : Outcome}
    (h : s.perform .run = (.ok (.ended outcome), t)) : t.machine.ip = s.machine.ip + outcome.steps := by
  obtain ⟨k, u, hsteps, -, ⟨-, hrun⟩ | ⟨-, -, hrun⟩ | ⟨-, -, e, -, hrun⟩⟩ := s.perform_run_cases
  · rw [hrun] at h
    cases h
    exact hsteps.moves.2.2
  · rw [hrun] at h
    cases h
    exact hsteps.moves.2.2
  · rw [hrun] at h
    cases h

/-- **The tally is that of the executed prefix.** In every state that calls lead to, failed ones included,
the index of the next instruction is the number of executed ones, each opcode is counted as often as it
stands before that index, and the five counts add up to the total. A run reports as many steps as it adds
to the total. -/
theorem tally_executed {p : Program} {settings : Settings} {w w' : World} {m : Machine}
    (hload : (Machine.load p settings).run w = .ok m w') {s : State} (hs : Reaches ⟨w', m⟩ s) :
    s.machine.ip ≤ p.length ∧ s.machine.tally.retired = s.machine.ip ∧
    (∀ op, s.machine.tally.count op = ((p.code.take s.machine.ip).map Instruction.opcode).count op) ∧
    s.machine.tally.count .define = 0 ∧
    s.machine.tally.retired = s.machine.tally.count .mov + s.machine.tally.count .add +
      s.machine.tally.count .sub + s.machine.tally.count .cbw + s.machine.tally.count .cwd ∧
    ∀ outcome t, s.perform .run = (.ok (.ended outcome), t) →
      t.machine.tally.retired = s.machine.tally.retired + outcome.steps := by
  obtain ⟨scope, rfl, hl⟩ := Machine.load_ok hload
  have hprogram : s.machine.program = p := (hs.invariant (typed_stable p) hl.typed).program
  have hip : s.machine.ip ≤ s.machine.program.length := hs.invariant ip_stable (Nat.zero_le _)
  have htally := hs.invariant tally_stable rfl
  have hretired := State.retired_eq_ip hip htally
  rw [hprogram] at hip
  refine ⟨hip, hretired, ?_, rfl, ?_, ?_⟩
  · intro op
    rw [htally, hprogram]
    exact Tally.count_ofCode _ op
  · rw [htally]
    exact Tally.retired_eq_sum _
  · intro outcome t ht
    -- the run keeps the invariants, so the total is the index after it too
    have hip' := ip_stable.perform (s := s) (by rw [hprogram]; exact hip) .run
    have htally' := tally_stable.perform htally .run
    rw [ht] at hip' htally'
    rw [State.retired_eq_ip hip' htally', hretired]
    exact State.ip_of_perform_run ht

/-- The bound stops a run at `cwd`, the next run fails at a move and so does a step; neither they nor the
write between them are counted. -/
theorem tally_executed_interrupted :
    ∃ m w', (Machine.load Program.overfull ⟨true, some 2, .rebind⟩).run .empty = .ok m w' ∧
      let start : State := ⟨w', m⟩
      let s := (session State.perform start [.run, .run, .write "dh" (.ofInt 5 .byte), .step]).2
      (start.perform .run).1 = .ok (.ended (.stepLimit 2)) ∧ (start.perform .run).2.machine.tally.retired = 2 ∧
        s.machine.ip = 3 ∧ s.machine.tally.retired = 3 ∧ s.machine.tally.count .mov = 1 ∧
        s.machine.tally.count .add = 1 ∧ s.machine.tally.count .cwd = 1 := by
  refine ⟨_, _, rfl, ?_⟩
  intro start s
  obtain ⟨-, -, -, -, -, hsteps⟩ := @tally_executed Program.overfull ⟨true, some 2, .rebind⟩ .empty
    _ _ rfl start ⟨[], rfl⟩
  obtain ⟨-, hretired, hcount, -, -, -⟩ := @tally_executed Program.overfull ⟨true, some 2, .rebind⟩ .empty
    _ _ rfl s ⟨[.run, .run, .write "dh" (.ofInt 5 .byte), .step], rfl⟩
  have hrun : (start.perform .run).1 = .ok (.ended (.stepLimit 2)) := by decide +kernel
  have hip : s.machine.ip = 3 := by decide +kernel
  rw [hip] at hretired hcount
  exact ⟨hrun, hsteps _ _ (Prod.ext hrun rfl), hip, hretired, hcount .mov, hcount .add, hcount .cwd⟩

end Octet
