import Mathlib.Control.Monad.Basic
import Octet.Proofs.Placement
import Octet.Proofs.Simulation

/-!
# Where `cwd` puts its result matters only to `dl` and `dh`

Two machines with one program may differ in where `dx` is: among the registers or in a block of its own.
Who never names `dl` or `dh` cannot tell. What such calls and instructions see of a machine is its
`Face`: the bytes of the variables, those of the first three banks, and the value of `dx`. Machines with
one face answer alike and keep one face.

* `Placed.face_cwd`: **a `cwd` changes `dx` and nothing else of the face**, wherever it puts `dx`.
* `session_same_face`: **machines that differ in their modes answer alike and read alike.**
-/

namespace Octet

open Scope

/-- What an instruction that names neither `dl` nor `dh` changes is neither of them. -/
theorem Instruction.target_spared {i : Instruction}
    (hi : ∀ name ∈ i.names, name ∉ [Register.dl.name, Register.dh.name]) :
    i.target ∉ [Register.dl.name, Register.dh.name] := by
  cases i with
  | binary operation target source => cases source <;> exact hi target List.mem_cons_self
  | cbw => decide
  | cwd => decide

/-- What can be seen of a machine without `dl` and `dh`. -/
structure Face where
  data : List UInt8
  /-- The bytes of the first three banks. -/
  banks : List UInt8
  dx : Value

/-- The face of a machine with the given blocks and view of `dx`. -/
def Store.face (s : Store) (data registers : Handle) (v : View) : Face :=
  ⟨s.block data, (s.block registers).take 6, v.read s⟩

/-- A splice within the first `n` bytes is a splice of the first `n` bytes. -/
theorem Store.take_splice {block data : List UInt8} {offset n : Nat} (hn : offset + data.length ≤ n)
    (hfits : offset + data.length ≤ block.length) :
    (splice block offset data).take n = splice (block.take n) offset data := by
  have hlen : (block.take offset ++ data).length = offset + data.length := by
    rw [List.length_append, List.length_take]
    omega
  unfold splice
  rw [List.take_append, List.take_of_length_le (by omega), hlen, List.take_take, Nat.min_eq_left (by omega),
    List.drop_take]

theorem Store.range_of_take {s t : Store} {h k : Handle} {n offset width : Nat}
    (hsame : (s.block h).take n = (t.block k).take n) (hle : offset + width ≤ n) :
    s.range h offset width = t.range k offset width := by
  have hcut : ∀ bytes : List UInt8, (bytes.drop offset).take width = ((bytes.take n).drop offset).take width := by
    intro bytes
    rw [List.drop_take, List.take_take, Nat.min_eq_left (by omega)]
  unfold Store.range
  rw [hcut (s.block h), hcut (t.block k), hsame]

/-- A detached view reads the value that it was made for. -/
theorem View.read_detached (s : Store) (x : Value) : (View.detached s x).1.read (View.detached s x).2 = x := by
  show Value.ofNat (Bytes.toNat ((((s.alloc x.bytes).2.block (s.alloc x.bytes).1).drop 0).take x.width.bytes))
    x.width = x
  rw [Store.block_alloc, List.drop_zero, List.take_of_length_le (Nat.le_of_eq x.length_bytes), Value.toNat_bytes,
    Value.ofNat_magnitude]

namespace Placed

variable {p : Program} {data registers : Handle} {v : View} {s : State} {x : Value}

/-- A write to `dx` changes nothing else of the face, wherever `dx` is. -/
theorem face_assign_dx (hs : Placed p data registers v s) (hx : x.width = Width.word) :
    (s.assign Register.dx.name x).store.face data registers v = { s.store.face data registers v with dx := x } := by
  have hw : x.width = v.width := by rw [hx, hs.width]
  have hread := View.read_patch_self hs.inside hw
  rw [State.store_assign hs.lookup_dx]
  unfold Store.face
  rw [hread]
  rcases hs.apart with rfl | ⟨hdata, hregisters⟩
  · have hroom : 6 ≤ (s.store.block registers).length := Nat.le_trans (by decide) hs.roomRegisters
    have hbanks : ((s.store.patch registers 6 x.bytes).block registers).take 6 =
        (s.store.block registers).take 6 := by
      rw [Store.block_patch_self hs.hasRegisters]
      unfold Store.splice
      rw [List.append_assoc, List.take_left' (by rw [List.length_take]; omega)]
    have hdata : (s.store.patch registers 6 x.bytes).block data = s.store.block data :=
      Store.block_patch_of_ne hs.ne
    show Face.mk ((s.store.patch registers 6 x.bytes).block data)
      (((s.store.patch registers 6 x.bytes).block registers).take 6) x = _
    rw [hbanks, hdata]
  · rw [Store.block_patch_of_ne (Ne.symm hdata), Store.block_patch_of_ne (Ne.symm hregisters)]

theorem face_detachDx (hs : Placed p data registers v s) (x : Value) :
    (s.detachDx x).store.face data registers (View.detached s.store x).1 =
      { s.store.face data registers v with dx := x } := by
  show Face.mk ((s.store.alloc x.bytes).2.block data) (((s.store.alloc x.bytes).2.block registers).take 6)
    ((View.detached s.store x).1.read (View.detached s.store x).2) = _
  rw [View.read_detached, Store.block_alloc_of_has hs.hasData, Store.block_alloc_of_has hs.hasRegisters]
  rfl

/-- A write to a register of the first three banks. -/
theorem face_assign_register (hs : Placed p data registers v s) {r : Register} (hdx : r ≠ Register.dx)
    (hn : r.name ∉ [Register.dl.name, Register.dh.name]) (hx : x.width = r.width) :
    (s.assign r.name x).store.face data registers v =
      { s.store.face data registers v with
        banks := Store.splice (s.store.face data registers v).banks (r.view registers).offset x.bytes } := by
  have hu := hs.lookup_register hdx
  have hin := hs.inside_of_lookup hu
  have hdisjoint := hs.disjoint_dx hu (fun h => hdx (Register.name_injective h)) (Or.inr hn)
  have hread := View.read_patch_of_disjoint hin hx hdisjoint
  have hfits : (r.view registers).offset + x.bytes.length ≤ (s.store.block registers).length := hin.fits hx
  have hsix : (r.view registers).offset + x.bytes.length ≤ 6 := by
    rw [Value.length_bytes, hx]
    exact Register.stop_le_of_ne registers hdx hn
  rw [State.store_assign hu]
  unfold Store.face
  rw [hread, Store.block_patch_of_ne (h := (r.view registers).handle) hs.ne]
  show Face.mk _ (((s.store.patch registers _ x.bytes).block registers).take 6) _ = _
  rw [Store.block_patch_self hs.hasRegisters, Store.take_splice hsix hfits]

/-- A write to a variable. -/
theorem face_assign_variable (hs : Placed p data registers v s) {name : String} {u : View}
    (hr : Register.ofName? name = none) (hfind : find? name (layout data 0 p.declarations) = some u)
    (hx : x.width = u.width) :
    (s.assign name x).store.face data registers v =
      { s.store.face data registers v with
        data := Store.splice (s.store.face data registers v).data u.offset x.bytes } := by
  have hu := (hs.lookup_variable hr).trans hfind
  obtain ⟨hh, -, -⟩ := find?_layout_bounds hfind
  have hn : name ∉ [Register.dl.name, Register.dh.name] := by
    simp [Register.ne_name_of_ofName? hr]
  have hdisjoint := hs.disjoint_dx hu (Register.ne_name_of_ofName? hr Register.dx) (Or.inr hn)
  have hread := View.read_patch_of_disjoint (hs.inside_of_lookup hu) hx hdisjoint
  rw [State.store_assign hu]
  unfold Store.face
  rw [hread, hh, Store.block_patch_of_ne (Ne.symm hs.ne), Store.block_patch_self hs.hasData]

/-- **A `cwd` changes `dx` and nothing else of the face**, whether it writes through or rebinds. -/
theorem face_cwd (hs : Placed p data registers v s) (hx : s.machine.attempt s.store .cwd = .ok x) :
    ∃ v', Placed p data registers v' (s.deliver .cwd x) ∧
      (s.deliver .cwd x).store.face data registers v' = { s.store.face data registers v with dx := x } := by
  obtain ⟨-, ha, hd⟩ | ⟨-, hy, hd⟩ := State.deliver_cases hx
  · obtain ⟨u, hu, hw⟩ := Scope.admit_ok ha
    have hv := hs.lookup_dx
    rw [show Register.dx.name = Instruction.cwd.target from rfl, hu] at hv
    cases hv
    rw [hd]
    exact ⟨v, hs.assign ha, hs.face_assign_dx (hw.trans hs.width)⟩
  · obtain ⟨y, hy', hw⟩ := hs.typed.compute_cwd s.store
    rw [hy] at hy'
    cases hy'
    rw [hd]
    exact ⟨_, (hs.detachDx hw).1, hs.face_detachDx x⟩

end Placed

theorem Scope.Loaded.face {p : Program} {before after : Store} {scope : Scope}
    (hl : Scope.Loaded p.declarations before scope after) :
    after.face scope.data scope.registers (Register.dx.view scope.registers) =
      ⟨image p.declarations, List.replicate 6 0, (Cell.word 0).value⟩ := by
  have hdx : (Register.dx.view scope.registers).read after = (Cell.word 0).value := hl.holds.word .d
  unfold Store.face
  rw [hdx, hl.block_data, hl.block_registers]
  rfl

/-- Two machines with one program, at one instruction, that show one face. -/
structure Alike (p : Program) (data₁ registers₁ data₂ registers₂ : Handle) (s t : State) : Prop where
  ip : s.machine.ip = t.machine.ip
  tally : s.machine.tally = t.machine.tally
  bound : s.machine.settings.maxSteps = t.machine.settings.maxSteps
  face : ∃ v₁ v₂, Placed p data₁ registers₁ v₁ s ∧ Placed p data₂ registers₂ v₂ t ∧
    s.store.face data₁ registers₁ v₁ = t.store.face data₂ registers₂ v₂

namespace Alike

variable {p : Program} {data₁ registers₁ data₂ registers₂ : Handle} {s t s' t' : State} {name : String} {x : Value}

theorem congr (h : Alike p data₁ registers₁ data₂ registers₂ s t) (hs : s'.machine = s.machine)
    (hs' : s'.store = s.store) (ht : t'.machine = t.machine) (ht' : t'.store = t.store) :
    Alike p data₁ registers₁ data₂ registers₂ s' t' := by
  obtain ⟨v₁, v₂, h₁, h₂, hface⟩ := h.face
  refine ⟨?_, ?_, ?_, v₁, v₂, h₁.congr hs hs', h₂.congr ht ht', ?_⟩
  · rw [hs, ht]; exact h.ip
  · rw [hs, ht]; exact h.tally
  · rw [hs, ht]; exact h.bound
  · rw [hs', ht']; exact hface

/-- **A name other than `dl` and `dh` reads alike.** -/
theorem read (h : Alike p data₁ registers₁ data₂ registers₂ s t)
    (hn : name ∉ [Register.dl.name, Register.dh.name]) :
    s.machine.read s.store name = t.machine.read t.store name := by
  obtain ⟨v₁, v₂, h₁, h₂, hface⟩ := h.face
  cases hr : Register.ofName? name with
  | some r =>
    have hname := Register.name_of_ofName? hr
    subst hname
    by_cases hdx : r = Register.dx
    · subst hdx
      rw [h₁.read_dx, h₂.read_dx]
      exact congrArg (fun f => Except.ok (Face.dx f)) hface
    · have hstop := Register.stop_le_of_ne registers₁ hdx hn
      rw [h₁.read_register (Or.inl hdx), h₂.read_register (Or.inl hdx)]
      unfold View.read
      have hrange := Store.range_of_take (congrArg Face.banks hface) hstop
      exact congrArg (fun bytes => Except.ok (Value.ofNat (Bytes.toNat bytes) r.width)) hrange
  | none =>
    have hdata : s.store.block data₁ = t.store.block data₂ := congrArg Face.data hface
    have hhandle := find?_layout_handle data₁ data₂ name p.declarations 0
    unfold Machine.read Scope.read Scope.get
    rw [h₁.lookup_variable hr, h₂.lookup_variable hr, hhandle]
    cases hu : find? name (layout data₁ 0 p.declarations) with
    | none => rfl
    | some u =>
      obtain ⟨hh, -, -⟩ := find?_layout_bounds hu
      show Except.ok (u.read s.store) = Except.ok (View.read t.store ⟨data₂, u.offset, u.width⟩)
      unfold View.read Store.range
      rw [hh, hdata]

theorem admit_eq (h : Alike p data₁ registers₁ data₂ registers₂ s t)
    (hn : name ∉ [Register.dl.name, Register.dh.name]) (x : Value) :
    s.machine.scope.admit name x = t.machine.scope.admit name x := by
  have hread : s.machine.scope.read s.store name = t.machine.scope.read t.store name := h.read hn
  rw [s.machine.scope.admit_eq s.store, t.machine.scope.admit_eq t.store, hread]

/-- **A write to a name other than `dl` and `dh` leaves one face.** -/
theorem assign (h : Alike p data₁ registers₁ data₂ registers₂ s t)
    (hn : name ∉ [Register.dl.name, Register.dh.name]) (ha : s.machine.scope.admit name x = .ok ()) :
    Alike p data₁ registers₁ data₂ registers₂ (s.assign name x) (t.assign name x) := by
  obtain ⟨v₁, v₂, h₁, h₂, hface⟩ := h.face
  have ha' : t.machine.scope.admit name x = .ok () := by rw [← h.admit_eq hn, ha]
  obtain ⟨u, hu, hw⟩ := Scope.admit_ok ha
  refine ⟨?_, ?_, ?_, v₁, v₂, h₁.assign ha, h₂.assign ha', ?_⟩
  · rw [State.machine_assign, State.machine_assign]; exact h.ip
  · rw [State.machine_assign, State.machine_assign]; exact h.tally
  · rw [State.machine_assign, State.machine_assign]; exact h.bound
  -- each kind of name changes one part of the face, on both sides alike
  obtain ⟨rfl, rfl⟩ | ⟨r, hdx, rfl, rfl⟩ | ⟨hr, hfind⟩ := h₁.view_cases hu
  · have hword : x.width = Width.word := by rw [hw, h₁.width]
    rw [h₁.face_assign_dx hword, h₂.face_assign_dx hword, hface]
  · rw [h₁.face_assign_register hdx hn hw, h₂.face_assign_register hdx hn hw, hface]
    rfl
  · have hfind' := find?_layout_handle data₁ data₂ name p.declarations 0
    rw [hfind] at hfind'
    rw [h₁.face_assign_variable hr hfind hw, h₂.face_assign_variable hr hfind' hw, hface]

theorem compute (h : Alike p data₁ registers₁ data₂ registers₂ s t) {i : Instruction}
    (hi : ∀ name ∈ i.names, name ∉ [Register.dl.name, Register.dh.name]) :
    s.machine.compute s.store i = t.machine.compute t.store i :=
  Machine.compute_congr (h.read (by decide)) (h.read (by decide)) fun name hn => h.read (hi name hn)

/-- **An instruction that names neither `dl` nor `dh` computes alike, or fails alike.** -/
theorem attempt (h : Alike p data₁ registers₁ data₂ registers₂ s t) {i : Instruction}
    (hi : ∀ name ∈ i.names, name ∉ [Register.dl.name, Register.dh.name]) :
    s.machine.attempt s.store i = t.machine.attempt t.store i := by
  obtain ⟨v₁, v₂, h₁, h₂, -⟩ := h.face
  have hcompute := h.compute hi
  by_cases hcwd : i = .cwd
  · -- the modes may differ here, but the value fits into `dx` in both
    subst hcwd
    obtain ⟨x, hx, hw⟩ := h₁.typed.compute_cwd s.store
    have hx' : t.machine.compute t.store .cwd = .ok x := by rw [← hcompute, hx]
    obtain ⟨u₁, hu₁, hw₁⟩ := h₁.typed.get_ok (p.width?_register Register.dx)
    obtain ⟨u₂, hu₂, hw₂⟩ := h₂.typed.get_ok (p.width?_register Register.dx)
    rw [Machine.attempt_of_compute hx hu₁ (hw.trans hw₁.symm),
      Machine.attempt_of_compute hx' hu₂ (hw.trans hw₂.symm)]
  · have hrebinds : ∀ m : Machine, m.rebinds i = false := by
      intro m
      unfold Machine.rebinds
      rw [decide_eq_false hcwd, Bool.false_and]
    have htarget : i.target ∉ [Register.dl.name, Register.dh.name] := Instruction.target_spared hi
    rw [Machine.attempt_of_not_rebinds (hrebinds _), Machine.attempt_of_not_rebinds (hrebinds _), hcompute]
    simp only [h.admit_eq htarget]

/-- An executed instruction leaves one face. -/
theorem deliver (h : Alike p data₁ registers₁ data₂ registers₂ s t) {i : Instruction}
    (hi : ∀ name ∈ i.names, name ∉ [Register.dl.name, Register.dh.name])
    (hx : s.machine.attempt s.store i = .ok x) :
    Alike p data₁ registers₁ data₂ registers₂ ((s.deliver i x).retired i) ((t.deliver i x).retired i) := by
  have hx' : t.machine.attempt t.store i = .ok x := by rw [← h.attempt hi, hx]
  obtain ⟨hset₁, -, hip₁⟩ := Machine.deliver_settings s i x
  obtain ⟨hset₂, -, hip₂⟩ := Machine.deliver_settings t i x
  have hface : ∃ v₁ v₂, Placed p data₁ registers₁ v₁ (s.deliver i x) ∧ Placed p data₂ registers₂ v₂ (t.deliver i x) ∧
      (s.deliver i x).store.face data₁ registers₁ v₁ = (t.deliver i x).store.face data₂ registers₂ v₂ := by
    by_cases hcwd : i = .cwd
    · subst hcwd
      obtain ⟨v₁, v₂, h₁, h₂, hface⟩ := h.face
      obtain ⟨v₁', h₁', hface₁⟩ := h₁.face_cwd hx
      obtain ⟨v₂', h₂', hface₂⟩ := h₂.face_cwd hx'
      exact ⟨v₁', v₂', h₁', h₂', by rw [hface₁, hface₂, hface]⟩
    · obtain ⟨-, ha, hd⟩ | ⟨hr, -, -⟩ := State.deliver_cases hx
      · obtain ⟨-, -, hd'⟩ | ⟨hr, -, -⟩ := State.deliver_cases hx'
        · rw [hd, hd']
          exact (h.assign (Instruction.target_spared hi) ha).face
        · exact absurd (Machine.eq_cwd_of_rebinds hr) hcwd
      · exact absurd (Machine.eq_cwd_of_rebinds hr) hcwd
  obtain ⟨v₁, v₂, h₁, h₂, hface⟩ := hface
  refine ⟨?_, ?_, ?_, v₁, v₂, h₁.retired i, h₂.retired i, hface⟩
  · show (s.deliver i x).machine.ip + 1 = (t.deliver i x).machine.ip + 1
    rw [hip₁, hip₂, h.ip]
  · show (s.deliver i x).machine.tally.record i.opcode = (t.deliver i x).machine.tally.record i.opcode
    rw [State.tally_deliver, State.tally_deliver, h.tally]
  · show (s.deliver i x).machine.settings.maxSteps = (t.deliver i x).machine.settings.maxSteps
    rw [hset₁, hset₂, h.bound]

theorem program (h : Alike p data₁ registers₁ data₂ registers₂ s t) :
    s.machine.program = p ∧ t.machine.program = p := by
  obtain ⟨v₁, v₂, h₁, h₂, -⟩ := h.face
  exact ⟨h₁.program, h₂.program⟩

theorem lockstep (hcode : ∀ i ∈ p.code, ∀ name ∈ i.names, name ∉ [Register.dl.name, Register.dh.name]) :
    Lockstep (Alike p data₁ registers₁ data₂ registers₂) where
  log s t log log' h := h.congr rfl rfl rfl rfl
  next s t h := by
    unfold Machine.current?
    rw [h.program.1, h.program.2, h.ip]
    cases hi : p.code[t.machine.ip]? with
    | none => exact Or.inl ⟨rfl, rfl, rfl, rfl⟩
    | some i =>
      have hnames := hcode i (List.mem_of_getElem? hi)
      exact Or.inr ⟨i, i, rfl, rfl, h.attempt hnames, fun x hx => h.deliver hnames hx⟩

/-- **If no instruction names `dl` or `dh`, machines that show one face go on to do so.** -/
theorem simulation (hcode : ∀ i ∈ p.code, ∀ name ∈ i.names, name ∉ [Register.dl.name, Register.dh.name]) :
    Simulation (Alike p data₁ registers₁ data₂ registers₂)
      fun name => name ∉ [Register.dl.name, Register.dh.name] where
  remaining s t h := by
    unfold Machine.remaining
    rw [h.program.1, h.program.2, h.ip]
  bound s t h := h.bound
  admission s t name x h hn := h.admit_eq hn x
  write s t name x h hn ha := h.assign hn ha
  step s t h := (lockstep hcode).step h

end Alike

/-- **Where `cwd` puts its result matters only to `dl` and `dh`.** Two machines that load one program with
one bound, whatever else their settings say, answer every sequence of calls alike if neither the program
nor a write names `dl` or `dh`. Afterwards they are at one instruction with one tally, their variables and
their first six register bytes are equal, and every name but `dl` and `dh` reads alike. -/
theorem session_same_face {p : Program} {a b : Settings} {w₁ w₁' w₂ w₂' : World} {m₁ m₂ : Machine}
    (hload₁ : (Machine.load p a).run w₁ = .ok m₁ w₁') (hload₂ : (Machine.load p b).run w₂ = .ok m₂ w₂')
    (hbound : a.maxSteps = b.maxSteps)
    (hcode : ∀ i ∈ p.code, ∀ name ∈ i.names, name ∉ [Register.dl.name, Register.dh.name])
    (calls : List Call)
    (hcalls : ∀ name x, .write name x ∈ calls → name ∉ [Register.dl.name, Register.dh.name]) :
    let s := session State.perform ⟨w₁', m₁⟩ calls
    let t := session State.perform ⟨w₂', m₂⟩ calls
    s.1 = t.1 ∧ s.2.machine.ip = t.2.machine.ip ∧ s.2.machine.tally = t.2.machine.tally ∧
      s.2.store.block s.2.machine.scope.data = t.2.store.block t.2.machine.scope.data ∧
      (s.2.store.block s.2.machine.scope.registers).take 6 = (t.2.store.block t.2.machine.scope.registers).take 6 ∧
      ∀ name, name ∉ [Register.dl.name, Register.dh.name] →
        s.2.machine.read s.2.store name = t.2.machine.read t.2.store name := by
  intro s t
  obtain ⟨scope₁, rfl, hl₁⟩ := Machine.load_ok hload₁
  obtain ⟨scope₂, rfl, hl₂⟩ := Machine.load_ok hload₂
  have hstart : Alike p scope₁.data scope₁.registers scope₂.data scope₂.registers
      ⟨w₁', ⟨p, a, scope₁, 0, .zero⟩⟩ ⟨w₂', ⟨p, b, scope₂, 0, .zero⟩⟩ := by
    exact ⟨rfl, rfl, hbound, _, _, hl₁.placed, hl₂.placed, hl₁.face.trans hl₂.face.symm⟩
  obtain ⟨hanswers, h⟩ := (Alike.simulation hcode).session hstart calls hcalls
  obtain ⟨v₁, v₂, -, -, hface⟩ := h.face
  have hs : Reaches ⟨w₁', ⟨p, a, scope₁, 0, .zero⟩⟩ s.2 := ⟨calls, rfl⟩
  have ht : Reaches ⟨w₂', ⟨p, b, scope₂, 0, .zero⟩⟩ t.2 := ⟨calls, rfl⟩
  obtain ⟨hdata₁, hregisters₁⟩ := hs.invariant (handles_stable scope₁.data scope₁.registers) ⟨rfl, rfl⟩
  obtain ⟨hdata₂, hregisters₂⟩ := ht.invariant (handles_stable scope₂.data scope₂.registers) ⟨rfl, rfl⟩
  rw [hdata₁, hregisters₁, hdata₂, hregisters₂]
  exact ⟨hanswers, h.ip, h.tally, congrArg Face.data hface, congrArg Face.banks hface, fun name hn => h.read hn⟩

/-- A program that uses `dx` after a `cwd`, never a half of it, and fails before the next `cwd`. -/
def Program.spared : Program where
  declarations := [.make "sign" .word 0]
  code := [.binary .mov "ax" (.literal (-2)), .cwd, .binary .mov "sign" (.name "dx"),
    .binary .mov "al" (.name "dx"), .cwd]

/-- One machine writes through and one rebinds. Both stop at the bound, then fail at the fourth instruction,
with one `dx`; only `dl` tells them apart. -/
theorem session_same_face_spared :
    ∃ m₁ w₁ m₂ w₂, (Machine.load Program.spared ⟨false, some 2, .writeThrough⟩).run .empty = .ok m₁ w₁ ∧
      (Machine.load Program.spared ⟨true, some 2, .rebind⟩).run .empty = .ok m₂ w₂ ∧
      let calls : List Call := [.run, .write "dx" (.ofInt 9 .word), .run]
      let s := session State.perform ⟨w₁, m₁⟩ calls
      let t := session State.perform ⟨w₂, m₂⟩ calls
      s.1 = t.1 ∧ t.1 = [.ok (.ended (.stepLimit 2)), .ok .done, .error (.widthMismatch 1 2)] ∧
        s.2.machine.read s.2.store "dx" = t.2.machine.read t.2.store "dx" ∧
        s.2.machine.read s.2.store "dl" ≠ t.2.machine.read t.2.store "dl" := by
  refine ⟨_, _, _, _, rfl, rfl, ?_⟩
  intro calls
  have hcalls : ∀ name x, Call.write name x ∈ calls → name ∉ [Register.dl.name, Register.dh.name] := by
    intro name x hmem
    have hname : name = "dx" := by simp only [calls, List.mem_cons, List.not_mem_nil] at hmem; grind
    rw [hname]
    decide
  obtain ⟨hanswers, -, -, -, -, hread⟩ := @session_same_face Program.spared
    ⟨false, some 2, .writeThrough⟩ ⟨true, some 2, .rebind⟩ .empty _ .empty _ _ _ rfl rfl rfl (by decide) calls hcalls
  exact ⟨hanswers, by decide +kernel, hread "dx" (by decide), by decide +kernel⟩

end Octet
