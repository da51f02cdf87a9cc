import Mathlib.Data.Int.ModEq
import Octet.Proofs.Loading
import Octet.Proofs.Renaming

/-!
# A listing runs as its program does

A program that was not read from a text may have literals of any length, and its listing has them in full.
Read back, they keep their low 64 bits and their sign. No instruction can tell: a literal is reduced to the
width of its target, and every width divides 64 bits. So a program and what is read from its listing answer
all calls alike, in whatever worlds they are loaded.

* `Program.wellFormed_of_names`: a program that is loadable and has names for names can be read back.
* `Machine.compute_reread`: **an instruction that was read back computes the same value.**
* `Reread.simulation`: machines whose code was read back answer alike.
* `Program.listing_runs_alike`: **a program and what is read from its listing cannot be told apart.**
-/

namespace Octet

/-- All names that stand in a program. -/
def Program.names (p : Program) : List String :=
  p.declarations.map Declaration.name ++ p.code.flatMap Instruction.names

namespace Program

/-- Different names that are not taken from the start are fresh. -/
theorem fresh_of_nodup {ds : List Declaration} : ∀ {declared : List String}, (ds.map Declaration.name).Nodup →
    (∀ d ∈ ds, Register.ofName? d.name = none ∧ d.name ∉ declared) → Fresh declared ds := by
  induction ds with
  | nil => intro declared _ _; trivial
  | cons d ds ih =>
    intro declared hnodup hfree
    rw [List.map_cons, List.nodup_cons] at hnodup
    obtain ⟨hregister, hnew⟩ := hfree d List.mem_cons_self
    refine ⟨by simp [isTaken, hregister, hnew], ih hnodup.2 ?_⟩
    intro d' hd'
    obtain ⟨hregister', hnew'⟩ := hfree d' (List.mem_cons_of_mem _ hd')
    refine ⟨hregister', ?_⟩
    -- the first name is taken from now on, and it does not come again
    rw [List.mem_cons, not_or]
    exact ⟨fun hn => hnodup.1 (hn ▸ List.mem_map_of_mem hd'), hnew'⟩

/-- **A program that is loadable and has names for names can be read back.** -/
theorem wellFormed_of_names {p : Program} (hnames : ∀ n ∈ p.names, IsName n) (hp : Loadable p.declarations) :
    p.WellFormed [] := by
  refine ⟨?_, ?_, fresh_of_nodup hp.nodup fun d hd => ⟨hp.free d hd, List.not_mem_nil⟩⟩
  · intro d hd
    exact ⟨hnames _ (List.mem_append_left _ (List.mem_map_of_mem hd)), hp.fits d hd⟩
  · intro i hi
    have hin : ∀ n ∈ i.names, IsName n := fun n hn =>
      hnames n (List.mem_append_right _ (List.mem_flatMap.2 ⟨i, hi, hn⟩))
    cases i with
    | cbw => trivial
    | cwd => trivial
    | binary operation target source =>
      cases source with
      | literal z => exact ⟨hin target (by simp [Instruction.names]), trivial⟩
      | name n => exact ⟨hin target (by simp [Instruction.names]), hin n (by simp [Instruction.names])⟩

end Program

/-- A literal that was read back is its low 64 bits with its sign. -/
theorem Operand.reread_literal_sign (z : Int) :
    (literal z).reread = literal (z.sign * ((z.natAbs % 2 ^ 64 : Nat) : Int)) := by
  rw [reread]
  congr 1
  rcases Int.lt_trichotomy z 0 with hz | rfl | hz
  · rw [if_pos hz, Int.sign_eq_neg_one_of_neg hz, Int.neg_one_mul]
    rfl
  · rfl
  · rw [if_neg (Int.not_lt.2 (Int.le_of_lt hz)), Int.sign_eq_one_of_pos hz, Int.one_mul]
    rfl

/-- The low 64 bits of a number are congruent to it at every width. -/
theorem Width.mod_modEq (w : Width) (n : Nat) : ((n % 2 ^ 64 : Nat) : Int) ≡ (n : Int) [ZMOD w.modulus] := by
  -- every modulus divides 64 bits
  have hdvd : w.modulus ∣ 2 ^ 64 := Nat.pow_dvd_pow 256 w.le_eight
  rw [Int.natCast_mod]
  exact (Int.mod_modEq _ _).of_dvd (Int.natCast_dvd_natCast.2 hdvd)

/-- **A literal and what is read back for it are congruent at every width.** -/
theorem Width.sign_mul_modEq (w : Width) (z : Int) :
    z.sign * ((z.natAbs % 2 ^ 64 : Nat) : Int) ≡ z [ZMOD w.modulus] := by
  have hsign := (w.mod_modEq z.natAbs).mul_left z.sign
  rwa [Int.sign_mul_natAbs] at hsign

theorem Value.make_sign_mul (z : Int) (bytes : Nat) :
    Value.make (z.sign * ((z.natAbs % 2 ^ 64 : Nat) : Int)) bytes = Value.make z bytes := by
  unfold Value.make
  cases Width.ofNat bytes with
  | error e => rfl
  | ok w => exact congrArg Except.ok (Value.ofInt_eq_ofInt (w.sign_mul_modEq z))

theorem Scope.resolve_reread (scope : Scope) (s : Store) (o : Operand) (width : Nat) :
    scope.resolve s o.reread width = scope.resolve s o width := by
  cases o with
  | name n => rfl
  | literal z =>
    rw [Operand.reread_literal_sign]
    exact Value.make_sign_mul z width

namespace Instruction

@[simp] theorem opcode_reread (i : Instruction) : i.reread.opcode = i.opcode := by
  cases i <;> rfl

@[simp] theorem target_reread (i : Instruction) : i.reread.target = i.target := by
  cases i <;> rfl

end Instruction

namespace Machine

@[simp] theorem rebinds_reread (m : Machine) (i : Instruction) : m.rebinds i.reread = m.rebinds i := by
  cases i <;> rfl

/-- **An instruction that was read back computes the same value.** -/
theorem compute_reread (m : Machine) (s : Store) (i : Instruction) : m.compute s i.reread = m.compute s i := by
  cases i with
  | cbw => rfl
  | cwd => rfl
  | binary operation target source => simp only [Instruction.reread, compute, Scope.resolve_reread]

theorem attempt_reread (m : Machine) (s : Store) (i : Instruction) : m.attempt s i.reread = m.attempt s i := by
  unfold attempt
  rw [compute_reread, rebinds_reread, Instruction.target_reread]

end Machine

/-- Two machines with one store and one scope, of which one has the code of the other as it is read back. -/
structure Reread (s t : State) : Prop where
  store : t.store = s.store
  machine : t.machine = { s.machine with program := s.machine.program.reread }

namespace Reread

variable {s t : State}

theorem assign (h : Reread s t) (name : String) (x : Value) : Reread (s.assign name x) (t.assign name x) := by
  refine ⟨?_, by rw [State.machine_assign, State.machine_assign]; exact h.machine⟩
  unfold State.assign
  simp only [h.machine]
  cases s.machine.scope.lookup? name with
  | none => exact h.store
  | some v => exact congrArg (fun store : Store => store.patch v.handle v.offset x.bytes) h.store

theorem detachDx (h : Reread s t) (x : Value) : Reread (s.detachDx x) (t.detachDx x) := by
  unfold State.detachDx
  rw [h.store, h.machine]
  exact ⟨rfl, rfl⟩

theorem rebinds (h : Reread s t) (i : Instruction) : t.machine.rebinds i.reread = s.machine.rebinds i := by
  rw [h.machine, Machine.rebinds_reread]
  rfl

theorem attempt (h : Reread s t) (i : Instruction) :
    s.machine.attempt s.store i = t.machine.attempt t.store i.reread := by
  rw [h.machine, h.store, Machine.attempt_reread]
  rfl

theorem deliver (h : Reread s t) (i : Instruction) (x : Value) : Reread (s.deliver i x) (t.deliver i.reread x) := by
  unfold State.deliver
  rw [h.rebinds, Instruction.target_reread]
  split
  · exact h.detachDx x
  · exact h.assign i.target x

theorem retired (h : Reread s t) (i : Instruction) : Reread (s.retired i) (t.retired i.reread) := by
  refine ⟨h.store, ?_⟩
  unfold State.retired
  rw [h.machine, Instruction.opcode_reread]
  rfl

theorem lockstep : Lockstep Reread where
  log _ _ _ _ h := ⟨h.store, h.machine⟩
  next s t h := by
    have hcurrent : t.machine.current? = s.machine.current?.map Instruction.reread := by
      unfold Machine.current?
      rw [h.machine]
      exact List.getElem?_map
    rw [hcurrent]
    cases hi : s.machine.current? with
    | none =>
      refine Or.inl ⟨rfl, rfl, ?_, ?_⟩
      · rw [h.machine]
      · rw [h.machine]
        exact (List.length_map _).symm
    | some i => exact Or.inr ⟨i, i.reread, rfl, rfl, h.attempt i, fun x _ => (h.deliver i x).retired i⟩

/-- **Machines of which one has the code of the other as it is read back answer alike.** -/
theorem simulation : Simulation Reread fun _ => True where
  remaining s t h := by
    unfold Machine.remaining
    rw [h.machine]
    exact congrArg (· - s.machine.ip) (List.length_map _).symm
  bound s t h := by rw [h.machine]
  step s t h := lockstep.step h
  admission s t name x h _ := by rw [h.machine]
  write s t name x h _ _ := h.assign name x

theorem matching (h : Reread s t) : s.Matches t where
  ip := by rw [h.machine]
  tally := by rw [h.machine]
  data := by rw [h.store, h.machine]
  registers := by rw [h.store, h.machine]
  block name := by rw [h.store, h.machine]
  read name := by rw [h.store, h.machine]; rfl

end Reread

/-- A program as it is read back loads alike. -/
theorem Machine.load_reread {p : Program} {settings : Settings} {w w' : World} {m : Machine}
    (hload : (Machine.load p settings).run w = .ok m w') :
    ∃ m', (Machine.load p.reread settings).run w = .ok m' w' ∧ Reread ⟨w', m⟩ ⟨w', m'⟩ := by
  have hlength : p.reread.length = p.length := List.length_map _
  rw [Machine.run_load] at hload ⊢
  rw [hlength]
  split at hload
  case h_2 => cases hload
  case h_1 scope w₁ hscope =>
    cases hload
    have hreread : (Scope.load p.reread.declarations).run
        { w with log := w.log.push (.loading p.reread.declarations.length p.reread.dataSize p.length) } =
          .ok scope w' := hscope
    rw [hreread]
    exact ⟨⟨p.reread, settings, scope, 0, .zero⟩, rfl, rfl, rfl⟩

/-- **A program and what is read from its listing cannot be told apart.** The names of the program are words
of letters and digits that start with a letter, and its declarations can be loaded; its literals are any
integers. Then its listing can be read, and what is read has the same declarations and the same code, but of
each literal the low 64 bits with its sign. With any settings and in any worlds, machines with the two
programs react alike to every sequence of calls and reads, and show the same after it. -/
theorem Program.listing_runs_alike {p : Program} (hnames : ∀ n ∈ p.names, IsName n) (hp : Loadable p.declarations) :
    ∃ q, parse p.listing = .ok q ∧ q.declarations = p.declarations ∧ q.code = p.code.map Instruction.reread ∧
      (∀ operation target z, (Instruction.binary operation target (.literal z)).reread =
        .binary operation target (.literal (z.sign * ((z.natAbs % 2 ^ 64 : Nat) : Int)))) ∧
      ∀ settings w₁ w₂, ∃ m₁ w₁' m₂ w₂', (Machine.load p settings).run w₁ = .ok m₁ w₁' ∧
        (Machine.load q settings).run w₂ = .ok m₂ w₂' ∧
        ∀ interactions, (dialogue ⟨w₁', m₁⟩ interactions).1 = (dialogue ⟨w₂', m₂⟩ interactions).1 ∧
          (dialogue ⟨w₁', m₁⟩ interactions).2.Matches (dialogue ⟨w₂', m₂⟩ interactions).2 := by
  refine ⟨p.reread, parse_of_wellFormed (wellFormed_of_names hnames hp), rfl, rfl, ?_, ?_⟩
  · intro operation target z
    rw [← Operand.reread_literal_sign]
    rfl
  · intro settings w₁ w₂
    obtain ⟨m₁, w₁', hload₁⟩ := Machine.load_of_loadable hp settings w₁
    have hq : Loadable p.reread.declarations := hp
    obtain ⟨m₂, w₂', hload₂⟩ := Machine.load_of_loadable hq settings w₂
    refine ⟨m₁, w₁', m₂, w₂', hload₁, hload₂, ?_⟩
    intro interactions
    -- between the two stands what was read back, loaded into the first world
    obtain ⟨m, hload, hreread⟩ := Machine.load_reread hload₁
    obtain ⟨scope, rfl, hl⟩ := Machine.load_ok hload
    obtain ⟨scope₂, rfl, hl₂⟩ := Machine.load_ok hload₂
    obtain ⟨hsame, hend⟩ := Reread.simulation.dialogue
      (fun s t name h => h.matching.read name) interactions _ _ hreread
    have hread : ∀ s t name, (∃ ρ, Renamed ρ s t) → s.machine.read s.store name = t.machine.read t.store name := by
      rintro s t name ⟨ρ, h⟩
      exact h.read name
    obtain ⟨hsame₂, ρ, hend₂⟩ := Renamed.simulation.dialogue hread interactions _ _ (hl.renamed hl₂)
    exact ⟨hsame.trans hsame₂, hend.matching.trans hend₂.matching⟩

/-- Literals of 65 bits, a negative one among them, and the least one of 128 bits, whose low 64 bits are zero;
the first one makes `ax` negative, and the last instruction but one fails. -/
theorem Program.listing_runs_alike_long :
    let p : Program := ⟨[.make "count" .byte 200], [.binary .mov "ax" (.literal 18446744073709617147),
      .binary .sub "count" (.literal (-18446744073709551619)),
      .binary .mov "bl" (.literal (-170141183460469231731687303715884105728)), .cwd,
      .binary .mov "bl" (.name "dx"), .cbw]⟩
    let settings : Settings := ⟨true, none, .rebind⟩
    ∃ q, parse p.listing = .ok q ∧ q.code = [.binary .mov "ax" (.literal 65531),
        .binary .sub "count" (.literal (-3)), .binary .mov "bl" (.literal 0), .cwd,
        .binary .mov "bl" (.name "dx"), .cbw] ∧
      ∃ m₁ w₁ m₂ w₂, (Machine.load p settings).run .empty = .ok m₁ w₁ ∧
        (Machine.load q settings).run .empty = .ok m₂ w₂ ∧
        let interactions : List Interaction := [.call .run, .read "count", .call .step]
        (dialogue ⟨w₁, m₁⟩ interactions).1 = (dialogue ⟨w₂, m₂⟩ interactions).1 ∧
          (dialogue ⟨w₁, m₁⟩ interactions).2.machine.ip = (dialogue ⟨w₂, m₂⟩ interactions).2.machine.ip := by
  intro p settings
  have hnames : ∀ n ∈ p.names, IsName n := by decide +kernel
  obtain ⟨q, hq, -, hcode, -, halike⟩ := listing_runs_alike hnames ⟨by decide, by decide, by decide⟩
  obtain ⟨m₁, w₁, m₂, w₂, hload₁, hload₂, hdialogue⟩ := halike settings .empty .empty
  obtain ⟨hsame, hend⟩ := hdialogue [.call .run, .read "count", .call .step]
  exact ⟨q, hq, hcode, m₁, w₁, m₂, w₂, hload₁, hload₂, hsame, hend.ip⟩

end Octet
