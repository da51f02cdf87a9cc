import Mathlib.Logic.Function.Basic
import Octet.Proofs.Placement
import Octet.Proofs.Simulation

/-!
# Which blocks a machine has does not matter

A machine owns a few blocks of the store: that of its variables, that of its registers, and the one that a
`cwd` has given `dx`. Nothing that it answers depends on which blocks these are or on what else is in the
store. So a machine in one world and a machine in another, with blocks that hold the same bytes under
other handles, answer every call alike.

* `Renamed`: one machine is the other with its handles renamed.
* `Renamed.withStores`: what happens to blocks that a machine does not own does not matter to it.
* `Renamed.simulation`: **machines that differ in their handles answer alike and go on to differ only there.**
* `Scope.Loaded.renamed`: two loads of one program differ in their handles.
* `Renamed.matching`: what can be seen of such machines is the same.
-/

namespace Octet

open Scope

/-- The blocks of a machine: those of the variables and of the registers, and those of the views. -/
def Scope.Owns (scope : Scope) (h : Handle) : Prop :=
  h = scope.data ∨ h = scope.registers ∨ ∃ name v, scope.lookup? name = some v ∧ v.handle = h

/-- The view of the same range in another block. -/
def View.rename (ρ : Handle → Handle) (v : View) : View :=
  { v with handle := ρ v.handle }

theorem View.read_rename {s t : Store} {ρ : Handle → Handle} {v : View}
    (hblock : t.block (ρ v.handle) = s.block v.handle) : (v.rename ρ).read t = v.read s := by
  unfold View.read View.rename Store.range
  rw [hblock]

namespace Scope.Owns

variable {scope : Scope} {h : Handle} {name : String} {v : View}

theorem data (scope : Scope) : scope.Owns scope.data := Or.inl rfl

theorem registers (scope : Scope) : scope.Owns scope.registers := Or.inr (Or.inl rfl)

theorem view (hv : scope.lookup? name = some v) : scope.Owns v.handle := Or.inr (Or.inr ⟨name, v, hv, rfl⟩)

/-- A name that is bound anew brings at most the block of its view. -/
theorem of_bind (hh : (scope.bind name v).Owns h) : scope.Owns h ∨ h = v.handle := by
  rcases hh with hh | hh | ⟨other, u, hu, rfl⟩
  · exact Or.inl (Or.inl hh)
  · exact Or.inl (Or.inr (Or.inl hh))
  · rw [lookup?_bind] at hu
    split at hu
    · cases hu
      exact Or.inr rfl
    · exact Or.inl (view hu)

end Scope.Owns

/-- The handle that the next new block gets. -/
def Store.next (s : Store) : Handle := ⟨s.blocks.size⟩

theorem Store.Has.ne_next {s : Store} {h : Handle} (hs : s.Has h) : h ≠ s.next := by
  rintro rfl
  exact absurd hs (Nat.lt_irrefl _)

/-- A renaming that takes the next block of one store to the next block of another. -/
def withNext (ρ : Handle → Handle) (s t : Store) : Handle → Handle :=
  Function.update ρ s.next t.next

theorem withNext_next (ρ : Handle → Handle) (s t : Store) : withNext ρ s t s.next = t.next :=
  Function.update_self _ _ _

/-- One machine is the other with its handles renamed, and its blocks hold the same bytes. -/
structure Renamed (ρ : Handle → Handle) (s t : State) : Prop where
  program : t.machine.program = s.machine.program
  settings : t.machine.settings = s.machine.settings
  ip : t.machine.ip = s.machine.ip
  tally : t.machine.tally = s.machine.tally
  data : t.machine.scope.data = ρ s.machine.scope.data
  registers : t.machine.scope.registers = ρ s.machine.scope.registers
  lookup : ∀ name, t.machine.scope.lookup? name = (s.machine.scope.lookup? name).map (View.rename ρ)
  injective : ∀ h k, s.machine.scope.Owns h → s.machine.scope.Owns k → ρ h = ρ k → h = k
  blocks : ∀ h, s.machine.scope.Owns h →
    s.store.Has h ∧ t.store.Has (ρ h) ∧ t.store.block (ρ h) = s.store.block h

/-- Machines that cannot be told apart: they are at one instruction with one tally, their variables and
registers are the same bytes, and every name reads alike from blocks of the same bytes. -/
structure State.Matches (s t : State) : Prop where
  ip : s.machine.ip = t.machine.ip
  tally : s.machine.tally = t.machine.tally
  data : s.store.block s.machine.scope.data = t.store.block t.machine.scope.data
  registers : s.store.block s.machine.scope.registers = t.store.block t.machine.scope.registers
  block : ∀ name, (s.machine.scope.lookup? name).map (fun v => (s.store.block v.handle, v.offset)) =
    (t.machine.scope.lookup? name).map fun v => (t.store.block v.handle, v.offset)
  read : ∀ name, s.machine.read s.store name = t.machine.read t.store name

theorem State.Matches.trans {s t u : State} (hst : s.Matches t) (htu : t.Matches u) : s.Matches u where
  ip := hst.ip.trans htu.ip
  tally := hst.tally.trans htu.tally
  data := hst.data.trans htu.data
  registers := hst.registers.trans htu.registers
  block name := (hst.block name).trans (htu.block name)
  read name := (hst.read name).trans (htu.read name)

namespace Renamed

variable {ρ : Handle → Handle} {s t s' t' : State} {i : Instruction} {x : Value}

/-- **What happens to blocks that a machine does not own does not matter to it**, as long as the blocks it
owns go on to hold the same bytes. -/
theorem withStores (h : Renamed ρ s t) (hs : s'.machine = s.machine) (ht : t'.machine = t.machine)
    (hblocks : ∀ k, s.machine.scope.Owns k →
      s'.store.Has k ∧ t'.store.Has (ρ k) ∧ t'.store.block (ρ k) = s'.store.block k) :
    Renamed ρ s' t' := by
  constructor <;> rw [hs]
  · rw [ht]; exact h.program
  · rw [ht]; exact h.settings
  · rw [ht]; exact h.ip
  · rw [ht]; exact h.tally
  · rw [ht]; exact h.data
  · rw [ht]; exact h.registers
  · rw [ht]; exact h.lookup
  · exact h.injective
  · exact hblocks

/-- **A name reads alike.** -/
theorem read (h : Renamed ρ s t) (name : String) :
    s.machine.read s.store name = t.machine.read t.store name := by
  unfold Machine.read Scope.read Scope.get
  rw [h.lookup]
  cases hv : s.machine.scope.lookup? name with
  | none => rfl
  | some v => exact congrArg Except.ok (View.read_rename (h.blocks _ (Owns.view hv)).2.2).symm

theorem admit_eq (h : Renamed ρ s t) (name : String) (x : Value) :
    s.machine.scope.admit name x = t.machine.scope.admit name x := by
  have hread : s.machine.scope.read s.store name = t.machine.scope.read t.store name := h.read name
  rw [s.machine.scope.admit_eq s.store, t.machine.scope.admit_eq t.store, hread]

/-- A write reaches the block of the same name. -/
theorem assign (h : Renamed ρ s t) (name : String) (x : Value) :
    Renamed ρ (s.assign name x) (t.assign name x) := by
  have hlookup := h.lookup name
  refine h.withStores (State.machine_assign s name x) (State.machine_assign t name x) ?_
  intro k hk
  obtain ⟨hs, ht, hblock⟩ := h.blocks k hk
  cases hv : s.machine.scope.lookup? name with
  | none =>
    rw [hv] at hlookup
    unfold State.assign
    rw [hv, hlookup]
    exact ⟨hs, ht, hblock⟩
  | some v =>
    rw [hv] at hlookup
    rw [State.store_assign hv, State.store_assign hlookup]
    refine ⟨Store.has_patch.2 hs, Store.has_patch.2 ht, ?_⟩
    show (t.store.patch (ρ v.handle) v.offset x.bytes).block (ρ k) = _
    by_cases hkv : k = v.handle
    · rw [← hkv, Store.block_patch_self ht, Store.block_patch_self hs, hblock]
    · have hne : ρ k ≠ ρ v.handle := fun he => hkv (h.injective k _ hk (Owns.view hv) he)
      rw [Store.block_patch_of_ne hne, Store.block_patch_of_ne hkv, hblock]

theorem withNext_of_owns (h : Renamed ρ s t) {k : Handle} (hk : s.machine.scope.Owns k) :
    withNext ρ s.store t.store k = ρ k :=
  Function.update_of_ne (h.blocks k hk).1.ne_next _ _

/-- The renaming tells the new blocks from the blocks that were owned before. -/
theorem withNext_injective (h : Renamed ρ s t) {j k : Handle}
    (hj : s.machine.scope.Owns j ∨ j = s.store.next) (hk : s.machine.scope.Owns k ∨ k = s.store.next)
    (he : withNext ρ s.store t.store j = withNext ρ s.store t.store k) : j = k := by
  rcases hj with hj | rfl
  · have hne := (h.blocks j hj).2.1.ne_next
    rw [h.withNext_of_owns hj] at he
    rcases hk with hk | rfl
    · rw [h.withNext_of_owns hk] at he
      exact h.injective j k hj hk he
    · exact absurd (he.trans (withNext_next ρ _ _)) hne
  · rcases hk with hk | rfl
    · have hne := (h.blocks k hk).2.1.ne_next
      rw [h.withNext_of_owns hk, withNext_next] at he
      exact absurd he.symm hne
    · rfl

/-- **A new block for `dx`** is the next one on each side. -/
theorem detachDx (h : Renamed ρ s t) (x : Value) :
    Renamed (withNext ρ s.store t.store) (s.detachDx x) (t.detachDx x) := by
  have howns : ∀ k, (s.detachDx x).machine.scope.Owns k → s.machine.scope.Owns k ∨ k = s.store.next :=
    fun k hk => Owns.of_bind hk
  refine ⟨h.program, h.settings, h.ip, h.tally, ?_, ?_, ?_, ?_, ?_⟩
  · exact h.data.trans (h.withNext_of_owns (Owns.data _)).symm
  · exact h.registers.trans (h.withNext_of_owns (Owns.registers _)).symm
  · intro name
    show (t.machine.scope.bind Register.dx.name _).lookup? name =
      ((s.machine.scope.bind Register.dx.name _).lookup? name).map _
    rw [lookup?_bind, lookup?_bind]
    split
    · show some (⟨t.store.next, 0, x.width⟩ : View) = some ⟨withNext ρ s.store t.store s.store.next, 0, x.width⟩
      rw [withNext_next]
    · rw [h.lookup]
      cases hv : s.machine.scope.lookup? name with
      | none => rfl
      | some v =>
        show some (v.rename ρ) = some (v.rename _)
        unfold View.rename
        rw [h.withNext_of_owns (Owns.view hv)]
  · intro j k hj hk he
    exact h.withNext_injective (howns j hj) (howns k hk) he
  · intro k hk
    show (s.store.alloc x.bytes).2.Has k ∧ (t.store.alloc x.bytes).2.Has (withNext ρ s.store t.store k) ∧
      (t.store.alloc x.bytes).2.block (withNext ρ s.store t.store k) = (s.store.alloc x.bytes).2.block k
    rcases howns k hk with hk | rfl
    · obtain ⟨hs, ht, hblock⟩ := h.blocks k hk
      rw [h.withNext_of_owns hk, Store.block_alloc_of_has hs, Store.block_alloc_of_has ht]
      exact ⟨Store.has_alloc hs _, Store.has_alloc ht _, hblock⟩
    · rw [withNext_next]
      exact ⟨Store.has_alloc_self _ _, Store.has_alloc_self _ _,
        (Store.block_alloc _ _).trans (Store.block_alloc _ _).symm⟩

theorem rebinds (h : Renamed ρ s t) (i : Instruction) : t.machine.rebinds i = s.machine.rebinds i := by
  unfold Machine.rebinds
  rw [h.settings]

/-- **An instruction computes alike, or fails alike.** -/
theorem attempt (h : Renamed ρ s t) (i : Instruction) :
    s.machine.attempt s.store i = t.machine.attempt t.store i := by
  have hcompute : s.machine.compute s.store i = t.machine.compute t.store i :=
    Machine.compute_congr (h.read _) (h.read _) fun name _ => h.read name
  unfold Machine.attempt
  simp only [hcompute, h.rebinds, h.admit_eq]

theorem retired (h : Renamed ρ s t) (i : Instruction) : Renamed ρ (s.retired i) (t.retired i) where
  program := h.program
  settings := h.settings
  ip := congrArg (· + 1) h.ip
  tally := congrArg (·.record i.opcode) h.tally
  data := h.data
  registers := h.registers
  lookup := h.lookup
  injective := h.injective
  blocks := h.blocks

/-- An executed instruction leaves machines that differ in their handles. -/
theorem deliver (h : Renamed ρ s t) (hx : s.machine.attempt s.store i = .ok x) :
    ∃ ρ', Renamed ρ' ((s.deliver i x).retired i) ((t.deliver i x).retired i) := by
  have hx' : t.machine.attempt t.store i = .ok x := by rw [← h.attempt, hx]
  have hr := h.rebinds i
  obtain ⟨hs, -, hd⟩ | ⟨hs, -, hd⟩ := State.deliver_cases hx
  · obtain ⟨-, -, hd'⟩ | ⟨ht, -, -⟩ := State.deliver_cases hx'
    · rw [hd, hd']
      exact ⟨ρ, (h.assign i.target x).retired i⟩
    · rw [hs, ht] at hr
      cases hr
  · obtain ⟨ht, -, -⟩ | ⟨-, -, hd'⟩ := State.deliver_cases hx'
    · rw [hs, ht] at hr
      cases hr
    · rw [hd, hd']
      exact ⟨_, (h.detachDx x).retired i⟩

theorem lockstep : Lockstep fun s t => ∃ ρ, Renamed ρ s t where
  log s t log log' h := by
    obtain ⟨ρ, h⟩ := h
    exact ⟨ρ, h.withStores rfl rfl h.blocks⟩
  next s t h := by
    obtain ⟨ρ, h⟩ := h
    unfold Machine.current?
    rw [h.program, h.ip]
    cases hi : s.machine.program.code[s.machine.ip]? with
    | none => exact Or.inl ⟨rfl, rfl, rfl, rfl⟩
    | some i => exact Or.inr ⟨i, i, rfl, rfl, h.attempt i, fun x hx => h.deliver hx⟩

/-- **Machines that differ in their handles answer alike and go on to differ only there.** -/
theorem simulation : Simulation (fun s t => ∃ ρ, Renamed ρ s t) fun _ => True where
  remaining s t h := by
    obtain ⟨ρ, h⟩ := h
    unfold Machine.remaining
    rw [h.program, h.ip]
  bound s t h := by
    obtain ⟨ρ, h⟩ := h
    rw [h.settings]
  step s t h := lockstep.step h
  admission s t name x h _ := by
    obtain ⟨ρ, h⟩ := h
    exact h.admit_eq name x
  write s t name x h _ _ := by
    obtain ⟨ρ, h⟩ := h
    exact ⟨ρ, h.assign name x⟩

/-- **What can be seen of machines that differ in their handles is the same.** -/
theorem matching (h : Renamed ρ s t) : s.Matches t where
  ip := h.ip.symm
  tally := h.tally.symm
  data := by rw [h.data, (h.blocks _ (Owns.data _)).2.2]
  registers := by rw [h.registers, (h.blocks _ (Owns.registers _)).2.2]
  read := h.read
  block name := by
    rw [h.lookup]
    cases hv : s.machine.scope.lookup? name with
    | none => rfl
    | some v =>
      show some (s.store.block v.handle, v.offset) = some (t.store.block (ρ v.handle), v.offset)
      rw [(h.blocks _ (Owns.view hv)).2.2]

end Renamed

namespace Scope.Loaded

variable {p : Program} {before before₁ before₂ after : Store} {scope scope₁ scope₂ : Scope}

/-- A loaded machine owns its two blocks and no others. -/
theorem eq_of_owns (hl : Loaded p.declarations before scope after) {h : Handle} (hh : scope.Owns h) :
    h = scope.data ∨ h = scope.registers := by
  rcases hh with hh | hh | ⟨name, v, hv, rfl⟩
  · exact Or.inl hh
  · exact Or.inr hh
  · rw [hl.lookup?] at hv
    unfold Program.place at hv
    split at hv
    · cases hv
      exact Or.inr rfl
    · exact Or.inl (find?_layout_bounds hv).1

/-- The blocks of a loaded machine are new. -/
theorem new_of_owns (hl : Loaded p.declarations before scope after) {h : Handle} (hh : scope.Owns h) :
    ¬ before.Has h ∧ after.Has h := by
  have hsize : after.blocks.size = before.blocks.size + 2 := by rw [hl.store]; simp only [Array.size_push]
  unfold Store.Has
  rcases hl.eq_of_owns hh with rfl | rfl
  · rw [hl.data, hsize]
    exact ⟨Nat.lt_irrefl _, by simp only; omega⟩
  · rw [hl.registers, hsize]
    exact ⟨by simp only; omega, by simp only; omega⟩

/-- **Two loads of one program differ in their handles.** -/
theorem renamed {settings : Settings} {w₁ w₂ : World} (h₁ : Loaded p.declarations before₁ scope₁ w₁.store)
    (h₂ : Loaded p.declarations before₂ scope₂ w₂.store) :
    ∃ ρ, Renamed ρ ⟨w₁, ⟨p, settings, scope₁, 0, .zero⟩⟩ ⟨w₂, ⟨p, settings, scope₂, 0, .zero⟩⟩ := by
  let ρ : Handle → Handle := fun h => if h = scope₁.data then scope₂.data else scope₂.registers
  have hne₁ := h₁.data_ne_registers
  have hne₂ := h₂.data_ne_registers
  have hdata : ρ scope₁.data = scope₂.data := if_pos rfl
  have hregisters : ρ scope₁.registers = scope₂.registers := if_neg (Ne.symm hne₁)
  refine ⟨ρ, rfl, rfl, rfl, rfl, hdata.symm, hregisters.symm, ?_, ?_, ?_⟩
  · intro name
    show scope₂.lookup? name = (scope₁.lookup? name).map (View.rename ρ)
    rw [h₁.lookup?, h₂.lookup?]
    unfold Program.place
    split
    · show some _ = some (View.mk (ρ scope₁.registers) _ _)
      rw [hregisters]
      rfl
    · rw [find?_layout_handle scope₁.data scope₂.data]
      cases hv : find? name (layout scope₁.data 0 p.declarations) with
      | none => rfl
      | some v =>
        show some _ = some (View.mk (ρ v.handle) _ _)
        rw [(find?_layout_bounds hv).1, hdata]
  · intro h k hh hk he
    rcases h₁.eq_of_owns hh with rfl | rfl
    · rcases h₁.eq_of_owns hk with rfl | rfl
      · rfl
      · exact absurd (hdata.symm.trans (he.trans hregisters)) hne₂
    · rcases h₁.eq_of_owns hk with rfl | rfl
      · exact absurd (hdata.symm.trans (he.symm.trans hregisters)) hne₂
      · rfl
  · intro h hh
    refine ⟨(h₁.new_of_owns hh).2, ?_⟩
    rcases h₁.eq_of_owns hh with rfl | rfl
    · rw [hdata]
      exact ⟨(h₂.new_of_owns (Owns.data _)).2, h₂.block_data.trans h₁.block_data.symm⟩
    · rw [hregisters]
      exact ⟨(h₂.new_of_owns (Owns.registers _)).2, h₂.block_registers.trans h₁.block_registers.symm⟩

end Scope.Loaded
end Octet
