import Octet.Proofs.Calls
import Octet.Proofs.Layout

/-!
# Widths decide execution

Every name of a loaded machine has a view, and its width is fixed by the program: by the register, or by
the size of the declaration. No call changes which names there are or how wide they are, not even a
`cwd` that gives `dx` a new block. So whether a step succeeds, and with which error it fails, can be read
off the program and the index of the next instruction.

* `Program.verdict`: what a step does, judged by widths alone.
* `Typed`: the names of a machine have the widths of the program.
* `step_verdict`: **in every reachable state a step ends as `Program.verdict` says.**
-/

namespace Octet

namespace Program

/-- The width that a name must have. -/
def width (p : Program) (name : String) : Except Error Width :=
  match p.width? name with
  | some w => .ok w
  | none => .error (.undefined name)

/-- Whether an instruction succeeds, judged by the widths of its names. -/
def check (p : Program) : Instruction → Except Error Unit
  | .binary _ target source => do
    let w ← p.width target
    match source with
    | .literal _ => .ok ()
    | .name n =>
      let w' ← p.width n
      if w' = w then .ok () else .error (.widthMismatch w.bytes w'.bytes)
  | .cbw | .cwd => .ok ()

/-- Whether the step at an index succeeds, judged by the program alone. -/
def verdict (p : Program) (ip : Nat) : Except Error Unit :=
  match p.code[ip]? with
  | none => .error (.pastEnd ip p.length)
  | some i => p.check i

theorem width?_register (p : Program) (r : Register) : p.width? r.name = some r.width := by
  unfold width?
  rw [Register.ofName?_name]

theorem isSome_width? (p : Program) (name : String) :
    (p.width? name).isSome ↔ (∃ r : Register, r.name = name) ∨ ∃ d ∈ p.declarations, d.name = name := by
  constructor
  · intro h
    unfold width? at h
    split at h
    · rename_i r hr; exact Or.inl ⟨r, Register.name_of_ofName? hr⟩
    · simpa using Or.inr h
  · rintro (⟨r, rfl⟩ | ⟨d, hd, hn⟩)
    · rw [width?_register]; rfl
    · unfold width?
      split
      · rfl
      · rw [Option.isSome_map, List.find?_isSome]
        exact ⟨d, hd, by simpa using hn⟩

end Program

/-- The names of a machine have the widths of its program. -/
structure Typed (p : Program) (m : Machine) : Prop where
  program : m.program = p
  width : ∀ name, (m.scope.lookup? name).map View.width = p.width? name

namespace Typed

variable {p : Program} {m : Machine}

theorem lookup?_of_width? (hm : Typed p m) {name : String} {w : Width} (hw : p.width? name = some w) :
    ∃ v, m.scope.lookup? name = some v ∧ v.width = w := by
  have := hm.width name
  rw [hw] at this
  simpa using this

theorem lookup?_eq_none (hm : Typed p m) {name : String} (hw : p.width? name = none) :
    m.scope.lookup? name = none := by
  have := hm.width name
  rw [hw] at this
  simpa using this

theorem get_ok (hm : Typed p m) {name : String} {w : Width} (hw : p.width? name = some w) :
    ∃ v, m.scope.get name = .ok v ∧ v.width = w := by
  obtain ⟨v, hv, hvw⟩ := hm.lookup?_of_width? hw
  exact ⟨v, by unfold Scope.get; rw [hv], hvw⟩

theorem get_error (hm : Typed p m) {name : String} (hw : p.width? name = none) :
    m.scope.get name = .error (.undefined name) := by
  unfold Scope.get
  rw [hm.lookup?_eq_none hw]

theorem read_ok (hm : Typed p m) (s : Store) {name : String} {w : Width} (hw : p.width? name = some w) :
    ∃ x, m.scope.read s name = .ok x ∧ x.width = w := by
  obtain ⟨v, hv, hvw⟩ := hm.get_ok hw
  exact ⟨v.read s, by unfold Scope.read; rw [hv]; rfl, hvw⟩

theorem read_error (hm : Typed p m) (s : Store) {name : String} (hw : p.width? name = none) :
    m.scope.read s name = .error (.undefined name) := by
  unfold Scope.read
  rw [hm.get_error hw]
  rfl

theorem compute_cbw (hm : Typed p m) (s : Store) :
    ∃ x, m.compute s .cbw = .ok x ∧ x.width = Width.word := by
  obtain ⟨al, hal, hw⟩ := hm.read_ok s (p.width?_register Register.al)
  refine ⟨Value.ofInt al.signed Width.word, ?_, rfl⟩
  simp only [Machine.compute, hal, ok_bind]
  exact Value.extend_bytes (w := Width.word) (by rw [hw]; decide)

theorem compute_cwd (hm : Typed p m) (s : Store) :
    ∃ x, m.compute s .cwd = .ok x ∧ x.width = Width.word := by
  obtain ⟨ax, hax, hw⟩ := hm.read_ok s (p.width?_register Register.ax)
  exact ⟨_, by simp only [Machine.compute, hax, ok_bind]; exact Machine.upperHalf_word hw, rfl⟩

/-- **An attempt ends as the check of its widths says.** -/
theorem attempt_check (hm : Typed p m) (s : Store) (i : Instruction) :
    (∃ x, p.check i = .ok () ∧ m.attempt s i = .ok x ∧ p.width? i.target = some x.width) ∨
      ∃ e, p.check i = .error e ∧ m.attempt s i = .error e := by
  cases i with
  | binary operation target source =>
    cases hw : p.width? target with
    | none =>
      have hg := hm.get_error hw
      refine Or.inr ⟨.undefined target, by simp [Program.check, Program.width, hw], ?_⟩
      exact Machine.attempt_of_compute_error (by simp [Machine.compute, hg])
    | some w =>
      cases source with
      | literal z =>
        obtain ⟨v, hv, rfl⟩ := hm.get_ok hw
        have hx : m.scope.resolve s (.literal z) v.width.bytes = .ok (Value.ofInt z v.width) :=
          Value.make_bytes z v.width
        have ha := Machine.attempt_binary operation hv hx
        rw [if_pos (Value.width_ofInt z v.width)] at ha
        -- a literal takes the width of the target and so never fails
        exact Or.inl ⟨_, by simp [Program.check, Program.width, hw], ha, hw⟩
      | name n =>
        obtain ⟨v, hv, rfl⟩ := hm.get_ok hw
        cases hn : p.width? n with
        | none =>
          have hr := hm.read_error s hn
          refine Or.inr ⟨.undefined n, by simp [Program.check, Program.width, hw, hn], ?_⟩
          exact Machine.attempt_of_compute_error (by simp [Machine.compute, hv, Scope.resolve, hr])
        | some w' =>
          obtain ⟨x, hx, rfl⟩ := hm.read_ok s hn
          have hr : m.scope.resolve s (.name n) v.width.bytes = .ok x := hx
          have ha := Machine.attempt_binary operation hv hr
          by_cases hww : x.width = v.width
          · rw [if_pos hww] at ha
            exact Or.inl ⟨_, by simp [Program.check, Program.width, hw, hn, hww], ha, hw⟩
          · rw [if_neg hww] at ha
            exact Or.inr ⟨_, by simp [Program.check, Program.width, hw, hn, hww], ha⟩
  | cbw =>
    obtain ⟨x, hx, hxw⟩ := hm.compute_cbw s
    have hw : p.width? Instruction.cbw.target = some x.width := by
      rw [hxw]; exact p.width?_register Register.ax
    obtain ⟨v, hv, hvw⟩ := hm.get_ok hw
    exact Or.inl ⟨x, rfl, Machine.attempt_of_compute hx hv hvw.symm, hw⟩
  | cwd =>
    obtain ⟨x, hx, hxw⟩ := hm.compute_cwd s
    have hw : p.width? Instruction.cwd.target = some x.width := by
      rw [hxw]; exact p.width?_register Register.dx
    obtain ⟨v, hv, hvw⟩ := hm.get_ok hw
    exact Or.inl ⟨x, rfl, Machine.attempt_of_compute hx hv hvw.symm, hw⟩

/-- A new block for `dx` of the same width changes no width. -/
theorem bind (hm : Typed p m) {name : String} {v : View} (hw : p.width? name = some v.width) :
    Typed p { m with scope := m.scope.bind name v } := by
  refine ⟨hm.program, ?_⟩
  intro other
  rw [Scope.lookup?_bind]
  by_cases ho : other = name
  · subst ho
    rw [if_pos rfl, hw]
    rfl
  · rw [if_neg ho]
    exact hm.width other

end Typed

/-- **Widths survive every call.** -/
theorem typed_stable (p : Program) : Stable fun s => Typed p s.machine where
  log _ _ hs := hs
  assign s name x hs _ := by rw [State.machine_assign]; exact hs
  execute s i x hs _ hx := by
    have hd : Typed p (s.deliver i x).machine := by
      unfold State.deliver
      by_cases hr : s.machine.rebinds i = true
      · rw [if_pos hr]
        obtain ⟨y, -, hy, hw⟩ | ⟨e, -, he⟩ := hs.attempt_check s.store i
        · rw [hx] at hy
          cases hy
          -- only `cwd` gets here, and its value has the width that `dx` has in the program
          obtain rfl : i = .cwd := Machine.eq_cwd_of_rebinds hr
          exact hs.bind hw
        · rw [hx] at he; cases he
      · rw [if_neg hr, State.machine_assign]
        exact hs
    exact ⟨hd.program, hd.width⟩

theorem Scope.Loaded.typed {p : Program} {settings : Settings} {before after : Store} {scope : Scope}
    (hl : Scope.Loaded p.declarations before scope after) :
    Typed p ⟨p, settings, scope, 0, .zero⟩ := by
  refine ⟨rfl, ?_⟩
  intro name
  rw [hl.lookup?, Program.map_width_place]

/-- **Widths decide execution.** In every state that calls lead to, the names are the registers and
the declared variables, each as wide as when the program was loaded, and a step ends as
`Program.verdict` says, whatever the bytes are and wherever `cwd` puts its result. -/
theorem step_verdict {p : Program} {settings : Settings} {w w' : World} {m : Machine}
    (hload : (Machine.load p settings).run w = .ok m w') {s : State} (hs : Reaches ⟨w', m⟩ s) :
    (∀ name, (s.machine.scope.lookup? name).isSome ↔
      (∃ r : Register, r.name = name) ∨ ∃ d ∈ p.declarations, d.name = name) ∧
    (∀ name, (s.machine.scope.lookup? name).map View.width = (m.scope.lookup? name).map View.width) ∧
    (∀ name, (m.scope.lookup? name).map View.width = p.width? name) ∧
    (s.perform .step).1 = (p.verdict s.machine.ip).map fun _ => Reply.done := by
  obtain ⟨scope, rfl, hl⟩ := Machine.load_ok hload
  have h0 : Typed p ⟨p, settings, scope, 0, .zero⟩ := hl.typed
  have hm : Typed p s.machine := hs.invariant (typed_stable p) h0
  refine ⟨?_, ?_, h0.width, ?_⟩
  · intro name
    rw [← p.isSome_width?, ← hm.width name, Option.isSome_map]
  · intro name
    rw [hm.width, h0.width]
  · rw [State.perform_step, Machine.run_step]
    unfold Machine.next Program.verdict Machine.current?
    rw [hm.program]
    cases hi : p.code[s.machine.ip]? with
    | none => rfl
    | some i =>
      obtain ⟨x, hc, hx, -⟩ | ⟨e, hc, he⟩ := hm.attempt_check s.store i
      · simp only [hc, hx]; rfl
      · simp only [hc, he]; rfl

/-- After `cwd` has given `dx` a block of its own, a move of a word into half of it fails as ever. -/
theorem step_verdict_detached :
    ∃ m w', (Machine.load Program.overfull ⟨true, none, .rebind⟩).run .empty = .ok m w' ∧
      let s := (session State.perform ⟨w', m⟩ [.step, .step, .write "dx" (.ofInt 7 .word), .step]).2
      (s.machine.scope.lookup? "dx").map View.width = some Width.word ∧
        (s.perform .step).1 = .error (.widthMismatch 1 2) := by
  refine ⟨_, _, rfl, ?_⟩
  obtain ⟨-, hnow, hloaded, hstep⟩ := @step_verdict Program.overfull ⟨true, none, .rebind⟩ .empty
    _ _ rfl _ ⟨[.step, .step, .write "dx" (.ofInt 7 .word), .step], rfl⟩
  exact ⟨(hnow "dx").trans (hloaded "dx"), hstep.trans rfl⟩

end Octet
