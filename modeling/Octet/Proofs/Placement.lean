import Octet.Proofs.Encoding
import Octet.Proofs.Typing

/-!
# Where the names of a running machine are

No call moves a name, with one exception: a `cwd` that rebinds gives `dx` a new block. So in every
state all names but `dx` are where the program places them, and `dx` is there too or in a block that no
other name has.

* `Placed`: the names are in their places, and `dx` has a given view.
* `Placed.view_cases`: what the view of a name can be.
* `Placed.deliver`: **an instruction keeps every name in its place, or gives `dx` a block of its own.**
-/

namespace Octet

open Scope

/-- The low half of `dx`. -/
def Register.dl : Register := ⟨.d, .low⟩

/-- The high half of `dx`. -/
def Register.dh : Register := ⟨.d, .high⟩

/-- All names but `dx` are where the program places them, and `dx` has the view `v`. -/
structure Placed (p : Program) (data registers : Handle) (v : View) (s : State) : Prop where
  program : s.machine.program = p
  ne : data ≠ registers
  hasData : s.store.Has data
  roomData : Width.total (p.declarations.map Declaration.width) ≤ (s.store.block data).length
  roomRegisters : Register.blockSize ≤ (s.store.block registers).length
  lookup : ∀ name, s.machine.scope.lookup? name =
    if name = Register.dx.name then some v else p.place data registers name
  width : v.width = Width.word
  inside : v.Inside s.store
  apart : v = Register.dx.view registers ∨ v.handle ≠ data ∧ v.handle ≠ registers

theorem Store.has_alloc {s : Store} {h : Handle} (hs : s.Has h) (bytes : List UInt8) :
    (s.alloc bytes).2.Has h := by
  unfold Store.Has Store.alloc at *
  rw [Array.size_push]
  omega

theorem Store.has_alloc_self (s : Store) (bytes : List UInt8) : (s.alloc bytes).2.Has (s.alloc bytes).1 := by
  unfold Store.Has Store.alloc
  rw [Array.size_push]
  exact Nat.lt_succ_self _

/-- What is admitted to a name has the width of its view. -/
theorem Scope.admit_ok {scope : Scope} {name : String} {x : Value} (h : scope.admit name x = .ok ()) :
    ∃ u, scope.lookup? name = some u ∧ x.width = u.width := by
  unfold Scope.admit Scope.get at h
  cases hu : scope.lookup? name with
  | none => rw [hu] at h; cases h
  | some u =>
    rw [hu, ok_bind] at h
    by_cases hw : x.width = u.width
    · exact ⟨u, rfl, hw⟩
    · rw [if_neg hw] at h
      cases h

/-- An instruction writes what its target admits, or gives `dx` a new block. -/
theorem State.deliver_cases {s : State} {i : Instruction} {x : Value} (hx : s.machine.attempt s.store i = .ok x) :
    (s.machine.rebinds i = false ∧ s.machine.scope.admit i.target x = .ok () ∧
        s.deliver i x = s.assign i.target x) ∨
      (s.machine.rebinds i = true ∧ s.machine.compute s.store .cwd = .ok x ∧ s.deliver i x = s.detachDx x) := by
  unfold State.deliver
  cases hr : s.machine.rebinds i with
  | false =>
    rw [Machine.attempt_of_not_rebinds hr] at hx
    obtain ⟨y, -, hx⟩ := exists_of_bind_eq_ok hx
    obtain ⟨⟨⟩, ha, hx⟩ := exists_of_bind_eq_ok hx
    cases hx
    exact Or.inl ⟨rfl, ha, rfl⟩
  | true =>
    rw [Machine.attempt_of_rebinds hr] at hx
    rw [Machine.eq_cwd_of_rebinds hr] at hx
    exact Or.inr ⟨rfl, hx, rfl⟩

theorem State.tally_deliver (s : State) (i : Instruction) (x : Value) :
    (s.deliver i x).machine.tally = s.machine.tally := by
  unfold State.deliver
  split
  · rfl
  · rw [State.machine_assign]

/-- The blocks of the variables and of the registers are the same as long as a machine lives. -/
theorem handles_stable (data registers : Handle) :
    Stable fun s => s.machine.scope.data = data ∧ s.machine.scope.registers = registers where
  log _ _ hs := hs
  assign s name x hs _ := by rw [State.machine_assign]; exact hs
  execute s i x hs _ hx := by
    obtain ⟨-, -, hd⟩ | ⟨-, -, hd⟩ := State.deliver_cases hx
    · show (s.deliver i x).machine.scope.data = data ∧ (s.deliver i x).machine.scope.registers = registers
      rw [hd, State.machine_assign]
      exact hs
    · show (s.deliver i x).machine.scope.data = data ∧ (s.deliver i x).machine.scope.registers = registers
      rw [hd]
      exact hs

theorem Register.name_injective {r q : Register} (h : r.name = q.name) : r = q := by
  have hsame := congrArg Register.ofName? h
  rw [Register.ofName?_name, Register.ofName?_name] at hsame
  exact Option.some.inj hsame

/-- Away from `dx` and its halves, registers end before the last bank. -/
theorem Register.stop_le_of_ne {r : Register} (h : Handle) (hdx : r ≠ dx) (hhalf : r.name ∉ [dl.name, dh.name]) :
    (r.view h).stop ≤ 6 := by
  have hbank : r.bank ≠ .d := by
    rcases r with ⟨bank, part⟩
    rintro rfl
    cases part with
    | whole => exact hdx rfl
    | low => exact hhalf List.mem_cons_self
    | high => exact hhalf (List.mem_cons_of_mem _ List.mem_cons_self)
  obtain ⟨-, hstop, -⟩ := view_bounds h r
  have hoffset : r.bank.offset ≤ 4 := by
    cases hb : r.bank with
    | a => decide
    | b => decide
    | c => decide
    | d => exact absurd hb hbank
  omega

namespace Placed

variable {p : Program} {data registers : Handle} {v u : View} {s t : State} {name : String} {x : Value}

theorem congr (hs : Placed p data registers v s) (hmachine : t.machine = s.machine) (hstore : t.store = s.store) :
    Placed p data registers v t :=
  ⟨hmachine ▸ hs.program, hs.ne, hstore ▸ hs.hasData, hstore ▸ hs.roomData, hstore ▸ hs.roomRegisters, hmachine ▸ hs.lookup,
    hs.width, hstore ▸ hs.inside, hs.apart⟩

theorem lookup_dx (hs : Placed p data registers v s) : s.machine.scope.lookup? Register.dx.name = some v := by
  rw [hs.lookup, if_pos rfl]

/-- **What the view of a name can be**: that of `dx`, of another register, or of a variable. -/
theorem view_cases (hs : Placed p data registers v s) (hu : s.machine.scope.lookup? name = some u) :
    (name = Register.dx.name ∧ u = v) ∨
      (∃ r : Register, r ≠ Register.dx ∧ r.name = name ∧ u = r.view registers) ∨
      (Register.ofName? name = none ∧ find? name (layout data 0 p.declarations) = some u) := by
  rw [hs.lookup] at hu
  by_cases hn : name = Register.dx.name
  · rw [if_pos hn] at hu
    cases hu
    exact Or.inl ⟨hn, rfl⟩
  · rw [if_neg hn] at hu
    unfold Program.place at hu
    split at hu
    case h_1 r hr =>
      have hname := Register.name_of_ofName? hr
      cases hu
      refine Or.inr (Or.inl ⟨r, ?_, hname, rfl⟩)
      rintro rfl
      exact hn hname.symm
    case h_2 hr => exact Or.inr (Or.inr ⟨hr, hu⟩)

theorem inside_of_lookup (hs : Placed p data registers v s) (hu : s.machine.scope.lookup? name = some u) :
    u.Inside s.store := by
  obtain ⟨-, rfl⟩ | ⟨r, -, -, rfl⟩ | ⟨-, hv⟩ := hs.view_cases hu
  · exact hs.inside
  · exact Register.view_inside hs.roomRegisters r
  · obtain ⟨hh, -, hstop⟩ := find?_layout_bounds hv
    have hroom := hs.roomData
    unfold View.Inside
    rw [hh]
    omega

/-- A name other than `dx` shares no byte with it, unless `dx` is in its place and the name is one of its
halves. -/
theorem disjoint_dx (hs : Placed p data registers v s) (hu : s.machine.scope.lookup? name = some u)
    (hn : name ≠ Register.dx.name)
    (hhalf : (v.handle ≠ data ∧ v.handle ≠ registers) ∨ name ∉ [Register.dl.name, Register.dh.name]) :
    u.overlaps v = false := by
  rw [View.overlaps_eq_false_iff]
  obtain ⟨hname, -⟩ | ⟨r, hr, rfl, rfl⟩ | ⟨-, hv⟩ := hs.view_cases hu
  · exact absurd hname hn
  · rcases hs.apart with rfl | ⟨-, hne⟩
    · have hstop := Register.stop_le_of_ne registers hr (hhalf.resolve_left fun h => h.2 rfl)
      exact Or.inr (Or.inr hstop)
    · exact Or.inl (Ne.symm hne)
  · obtain ⟨hh, -, -⟩ := find?_layout_bounds hv
    rw [hh]
    rcases hs.apart with rfl | ⟨hne, -⟩
    · exact Or.inl hs.ne
    · exact Or.inl (Ne.symm hne)

theorem typed (hs : Placed p data registers v s) : Typed p s.machine := by
  refine ⟨hs.program, ?_⟩
  intro name
  rw [hs.lookup]
  by_cases hn : name = Register.dx.name
  · rw [if_pos hn, hn, p.width?_register]
    exact congrArg some hs.width
  · rw [if_neg hn]
    exact p.map_width_place data registers name

theorem assign (hs : Placed p data registers v s) (ha : s.machine.scope.admit name x = .ok ()) :
    Placed p data registers v (s.assign name x) := by
  obtain ⟨u, hu, hw⟩ := Scope.admit_ok ha
  have hstore := State.store_assign hu x
  have hmachine := State.machine_assign s name x
  have hlen := Store.length_block_patch ((hs.inside_of_lookup hu).fits hw)
  refine ⟨?_, hs.ne, ?_, ?_, ?_, ?_, hs.width, ?_, hs.apart⟩
  · rw [hmachine]; exact hs.program
  · rw [hstore, Store.has_patch]; exact hs.hasData
  · rw [hstore, hlen]; exact hs.roomData
  · rw [hstore, hlen]; exact hs.roomRegisters
  · rw [hmachine]; exact hs.lookup
  · unfold View.Inside
    rw [hstore, hlen]
    exact hs.inside

theorem retired (hs : Placed p data registers v s) (i : Instruction) : Placed p data registers v (s.retired i) :=
  ⟨hs.program, hs.ne, hs.hasData, hs.roomData, hs.roomRegisters, hs.lookup, hs.width, hs.inside, hs.apart⟩

theorem read_dx (hs : Placed p data registers v s) :
    s.machine.read s.store Register.dx.name = .ok (v.read s.store) := by
  unfold Machine.read Scope.read Scope.get
  rw [hs.lookup_dx]
  rfl

theorem lookup_register (hs : Placed p data registers v s) {r : Register} (hr : r ≠ Register.dx) :
    s.machine.scope.lookup? r.name = some (r.view registers) := by
  rw [hs.lookup, if_neg fun h => hr (Register.name_injective h)]
  unfold Program.place
  rw [Register.ofName?_name]

/-- A register that has not been rebound reads the bytes of its place. -/
theorem read_register (hs : Placed p data registers v s) {r : Register}
    (hr : r ≠ Register.dx ∨ v = Register.dx.view registers) :
    s.machine.read s.store r.name = .ok ((r.view registers).read s.store) := by
  by_cases hdx : r = Register.dx
  · subst hdx
    rw [hs.read_dx, hr.resolve_left (fun h => h rfl)]
  · unfold Machine.read Scope.read Scope.get
    rw [hs.lookup_register hdx]
    rfl

theorem lookup_variable (hs : Placed p data registers v s) (hr : Register.ofName? name = none) :
    s.machine.scope.lookup? name = find? name (layout data 0 p.declarations) := by
  rw [hs.lookup, if_neg (Register.ne_name_of_ofName? hr Register.dx)]
  unfold Program.place
  rw [hr]

theorem hasRegisters (hs : Placed p data registers v s) : s.store.Has registers := by
  apply Store.has_of_length_pos
  have := hs.roomRegisters
  unfold Register.blockSize at this
  omega

/-- A new block for `dx` is none of the two blocks that hold the other names. -/
theorem detachDx (hs : Placed p data registers v s) (hx : x.width = Width.word) :
    Placed p data registers (View.detached s.store x).1 (s.detachDx x) ∧
      (View.detached s.store x).1.handle ≠ data ∧ (View.detached s.store x).1.handle ≠ registers := by
  have hdata : (⟨s.store.blocks.size⟩ : Handle) ≠ data := by
    rintro rfl
    exact Nat.lt_irrefl _ hs.hasData
  have hregisters : (⟨s.store.blocks.size⟩ : Handle) ≠ registers := by
    rintro rfl
    exact Nat.lt_irrefl _ hs.hasRegisters
  have hblock : (s.store.alloc x.bytes).2.block ⟨s.store.blocks.size⟩ = x.bytes :=
    Store.block_alloc s.store x.bytes
  refine ⟨⟨hs.program, hs.ne, ?_, ?_, ?_, ?_, hx, ?_, Or.inr ⟨hdata, hregisters⟩⟩, hdata, hregisters⟩
  · exact Store.has_alloc hs.hasData _
  · show _ ≤ ((s.store.alloc x.bytes).2.block data).length
    rw [Store.block_alloc_of_has hs.hasData]
    exact hs.roomData
  · show _ ≤ ((s.store.alloc x.bytes).2.block registers).length
    rw [Store.block_alloc_of_has hs.hasRegisters]
    exact hs.roomRegisters
  · intro name
    show (s.machine.scope.bind Register.dx.name _).lookup? name = _
    rw [Scope.lookup?_bind, hs.lookup]
    split <;> rfl
  · show 0 + x.width.bytes ≤ ((s.store.alloc x.bytes).2.block ⟨s.store.blocks.size⟩).length
    rw [hblock, Value.length_bytes]
    omega

/-- **An instruction keeps every name in its place, or gives `dx` a block of its own.** -/
theorem deliver (hs : Placed p data registers v s) {i : Instruction} (hx : s.machine.attempt s.store i = .ok x) :
    ∃ v', Placed p data registers v' (s.deliver i x) ∧ (s.machine.rebinds i = false → v' = v) ∧
      (s.machine.rebinds i = true → v'.handle ≠ data ∧ v'.handle ≠ registers) := by
  obtain ⟨hr, ha, hd⟩ | ⟨hr, hy, hd⟩ := State.deliver_cases hx
  · rw [hd, hr]
    exact ⟨v, hs.assign ha, fun _ => rfl, by simp⟩
  · obtain ⟨y, hy', hw⟩ := hs.typed.compute_cwd s.store
    rw [hy] at hy'
    cases hy'
    obtain ⟨hplaced, hne⟩ := hs.detachDx hw
    rw [hd, hr]
    exact ⟨_, hplaced, by simp, fun _ => hne⟩

end Placed

theorem Scope.Loaded.placed {p : Program} {settings : Settings} {w w' : World} {scope : Scope}
    (hl : Scope.Loaded p.declarations w.store scope w'.store) :
    Placed p scope.data scope.registers (Register.dx.view scope.registers)
      ⟨w', ⟨p, settings, scope, 0, .zero⟩⟩ := by
  have hh := hl.holds
  refine ⟨rfl, hh.ne, ?_, hh.roomData, hh.roomRegisters, ?_, rfl,
    Register.view_inside hh.roomRegisters Register.dx, Or.inl rfl⟩
  · show scope.data.index < w'.store.blocks.size
    rw [hl.store, hl.data]
    simp only [Array.size_push]
    omega
  · intro name
    show scope.lookup? name = _
    rw [hl.lookup?]
    by_cases hn : name = Register.dx.name
    · rw [if_pos hn, hn]
      rfl
    · rw [if_neg hn]

end Octet
