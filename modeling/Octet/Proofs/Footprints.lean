import Octet.Proofs.Extension
import Octet.Proofs.Observation
import Octet.Proofs.Simulation

/-!
# Instructions that do not see each other

An instruction uses the values of some names and gives a value to one name. Each of these names has a view,
and the views are the footprint of the instruction. A write changes what a view shows only if it shares a byte
with the view, so an instruction that writes outside the footprint of another one leaves it to compute and write
as before. Where this holds both ways, the order of the two does not matter.

* `Scope.reads`, `Scope.writes`: the footprint of an instruction.
* `Scope.Independent`: neither instruction writes into the footprint of the other.
* `Store.patch_comm`: writes to ranges without a common byte commute.
* `Machine.attempt_patch`: **a write outside the footprint of an instruction does not show in its attempt.**
* `execute_commutes`: **independent instructions commute.**
-/

namespace Octet

/-- The names in an operand. -/
def Operand.names : Operand → List String
  | .name n => [n]
  | .literal _ => []

/-- The names whose values an instruction uses. A move does not use what it replaces. -/
def Instruction.uses : Instruction → List String
  | .binary .mov _ source => source.names
  | .binary .add target source | .binary .sub target source => target :: source.names
  | .cbw => [Register.al.name]
  | .cwd => [Register.ax.name]

namespace Scope

/-- The views that an instruction reads. -/
def reads (scope : Scope) (i : Instruction) : List View :=
  i.uses.filterMap scope.lookup?

/-- The views that an instruction writes. -/
def writes (scope : Scope) (i : Instruction) : List View :=
  (scope.lookup? i.target).toList

/-- No view that `i` writes overlaps one that `j` reads or writes. -/
def Spares (scope : Scope) (i j : Instruction) : Prop :=
  ∀ v ∈ scope.writes i, ∀ u ∈ scope.reads j ++ scope.writes j, v.overlaps u = false

/-- Neither instruction writes what the other one reads or writes. -/
def Independent (scope : Scope) (i j : Instruction) : Prop :=
  scope.Spares i j ∧ scope.Spares j i

instance (scope : Scope) (i j : Instruction) : Decidable (scope.Independent i j) :=
  inferInstanceAs (Decidable ((∀ _ ∈ _, ∀ _ ∈ _, _ = false) ∧ ∀ _ ∈ _, ∀ _ ∈ _, _ = false))

variable {scope : Scope} {i j : Instruction} {v u : View} {name : String}

theorem Spares.of_use (h : scope.Spares i j) (hv : scope.lookup? i.target = some v) (hname : name ∈ j.uses)
    (hu : scope.lookup? name = some u) : v.overlaps u = false := by
  refine h v (by simp [writes, hv]) u (List.mem_append_left _ ?_)
  exact List.mem_filterMap.2 ⟨name, hname, hu⟩

theorem Spares.of_target (h : scope.Spares i j) (hv : scope.lookup? i.target = some v)
    (hu : scope.lookup? j.target = some u) : v.overlaps u = false :=
  h v (by simp [writes, hv]) u (List.mem_append_right _ (by simp [writes, hu]))

/-- Names read alike in two stores if their views do. -/
theorem read_congr {s t : Store} (h : ∀ u, scope.lookup? name = some u → u.read t = u.read s) :
    scope.read t name = scope.read s name := by
  unfold read get
  cases hu : scope.lookup? name with
  | none => rfl
  | some u => exact congrArg Except.ok (h u hu)

end Scope

/-- **Writes to ranges without a common byte commute.** -/
theorem Store.patch_comm {s : Store} {a b : View} {x y : Value} (ha : a.Inside s) (hb : b.Inside s)
    (hx : x.width = a.width) (hy : y.width = b.width) (hd : a.overlaps b = false) :
    (s.patch a.handle a.offset x.bytes).patch b.handle b.offset y.bytes =
      (s.patch b.handle b.offset y.bytes).patch a.handle a.offset x.bytes := by
  have ha' : a.Inside (s.patch b.handle b.offset y.bytes) := ha.patch hb hy
  have hb' : b.Inside (s.patch a.handle a.offset x.bytes) := hb.patch ha hx
  have hcovers : ∀ h k, ¬ (a.Covers h k ∧ b.Covers h k) := by
    intro h k hk
    rw [View.overlaps_iff_covers.2 ⟨h, k, hk⟩] at hd
    cases hd
  apply ext_block (by simp only [size_patch])
  intro h _
  apply List.ext_getElem?
  intro k
  -- byte by byte: it is one that `a` covers, one that `b` covers, or one that neither does
  by_cases hak : a.Covers h k
  · have hbk : ¬ b.Covers h k := fun hbk => hcovers h k ⟨hak, hbk⟩
    rw [View.getElem?_write hb' (if_pos hy) hbk]
    obtain ⟨rfl, -, -⟩ := hak
    rw [getElem?_block_patch ha.has (ha.fits hx), getElem?_block_patch ha'.has (ha'.fits hx),
      View.getElem?_write hb (if_pos hy) hbk]
  · rw [View.getElem?_write ha' (if_pos hx) hak]
    by_cases hbk : b.Covers h k
    · obtain ⟨rfl, -, -⟩ := hbk
      rw [getElem?_block_patch hb'.has (hb'.fits hy), getElem?_block_patch hb.has (hb.fits hy),
        View.getElem?_write ha (if_pos hx) hak]
    · rw [View.getElem?_write hb' (if_pos hy) hbk, View.getElem?_write ha (if_pos hx) hak,
        View.getElem?_write hb (if_pos hy) hbk]

namespace Machine

variable {m : Machine} {s t : Store} {i j : Instruction}

/-- **An instruction computes alike where the names that it uses read alike.** -/
theorem compute_of_uses (huses : ∀ name ∈ i.uses, m.scope.read t name = m.scope.read s name) :
    m.compute t i = m.compute s i := by
  have hsource : ∀ source : Operand, (∀ name ∈ source.names, m.scope.read t name = m.scope.read s name) →
      ∀ width, m.scope.resolve t source width = m.scope.resolve s source width := by
    intro source hnames width
    cases source with
    | literal z => rfl
    | name n => exact hnames n List.mem_cons_self
  cases i with
  | cbw =>
    show m.scope.read t Register.al.name >>= _ = m.scope.read s Register.al.name >>= _
    rw [huses _ List.mem_cons_self]
  | cwd =>
    show m.scope.read t Register.ax.name >>= _ = m.scope.read s Register.ax.name >>= _
    rw [huses _ List.mem_cons_self]
  | binary operation target source =>
    cases operation with
    | mov =>
      -- the old value of the target is looked at by no branch of a move
      simp only [compute, hsource source huses]
      rfl
    | add =>
      rw [compute_binary, compute_binary, huses target List.mem_cons_self]
      simp only [hsource source fun n hn => huses n (List.mem_cons_of_mem _ hn)]
    | sub =>
      rw [compute_binary, compute_binary, huses target List.mem_cons_self]
      simp only [hsource source fun n hn => huses n (List.mem_cons_of_mem _ hn)]

/-- **A write outside the footprint of an instruction does not show in its attempt.** -/
theorem attempt_patch {v : View} {x : Value} (hspares : m.scope.Spares i j)
    (hv : m.scope.lookup? i.target = some v) (hinside : v.Inside s) (hx : x.width = v.width) :
    m.attempt (s.patch v.handle v.offset x.bytes) j = m.attempt s j := by
  have hcompute : m.compute (s.patch v.handle v.offset x.bytes) j = m.compute s j := by
    apply compute_of_uses
    intro name hname
    apply Scope.read_congr
    intro u hu
    exact View.read_patch_of_disjoint hinside hx (hspares.of_use hv hname hu)
  unfold attempt
  rw [hcompute]

/-- An instruction that does not rebind and succeeds has written through the view of its target. -/
theorem execute_ok {s t : State} (hr : s.machine.rebinds i = false) (h : (execute i).run s = .ok () t) :
    ∃ v x, s.machine.scope.lookup? i.target = some v ∧ x.width = v.width ∧
      s.machine.attempt s.store i = .ok x ∧ t = { s with store := s.store.patch v.handle v.offset x.bytes } := by
  rw [run_execute] at h
  split at h
  case h_2 => cases h
  case h_1 x hx =>
    cases h
    obtain ⟨-, ha, hd⟩ | ⟨hr', -⟩ := State.deliver_cases hx
    · obtain ⟨v, hv, hw⟩ := Scope.admit_ok ha
      refine ⟨v, x, hv, hw, hx, ?_⟩
      rw [hd, State.assign, hv]
    · rw [hr] at hr'
      cases hr'

/-- After a write outside its footprint, an instruction writes what it would have written before. -/
theorem run_execute_patch {s : State} {v u : View} {x y : Value} (hr : s.machine.rebinds j = false)
    (hspares : s.machine.scope.Spares i j) (hv : s.machine.scope.lookup? i.target = some v)
    (hinside : v.Inside s.store) (hx : x.width = v.width) (hu : s.machine.scope.lookup? j.target = some u)
    (hy : s.machine.attempt s.store j = .ok y) :
    (execute j).run { s with store := s.store.patch v.handle v.offset x.bytes } =
      .ok () { s with store := (s.store.patch v.handle v.offset x.bytes).patch u.handle u.offset y.bytes } := by
  rw [run_execute, attempt_patch hspares hv hinside hx, hy]
  simp only [State.deliver, hr, Bool.false_eq_true, if_false, State.assign, hu]

end Machine

/-- **Independent instructions commute.** In every state that calls lead a machine to which writes through,
take two instructions of any form that both succeed there. If no view that one of them writes overlaps a view
that the other one reads or writes, then each succeeds after the other, and both orders lead to one state: the
variables and the registers have the same bytes, and nothing else differs either. -/
theorem execute_commutes {p : Program} {settings : Settings} {w w' : World} {m : Machine}
    (hload : (Machine.load p settings).run w = .ok m w') (hmode : settings.cwdMode = .writeThrough)
    {s : State} (hs : Reaches ⟨w', m⟩ s) {i j : Instruction} {si sj : State}
    (hi : (Machine.execute i).run s = .ok () si) (hj : (Machine.execute j).run s = .ok () sj)
    (hij : s.machine.scope.Independent i j) :
    ∃ t, (Machine.execute j).run si = .ok () t ∧ (Machine.execute i).run sj = .ok () t := by
  have hsound : s.environment.Sound := hs.sound hload
  obtain ⟨scope, rfl, hl⟩ := Machine.load_ok hload
  have hattached : Attached p scope.data scope.registers s :=
    hs.invariant (attached_stable p scope.data scope.registers) ⟨hmode, hl.placed⟩
  have hr := hattached.rebinds_eq_false
  obtain ⟨v, x, hv, hx, hattempt, rfl⟩ := Machine.execute_ok (hr i) hi
  obtain ⟨u, y, hu, hy, hattempt', rfl⟩ := Machine.execute_ok (hr j) hj
  have hvin : v.Inside s.store := hsound _ v hv
  have huin : u.Inside s.store := hsound _ u hu
  have hji := Machine.run_execute_patch (hr i) hij.2 hu huin hy hv hattempt
  rw [← Store.patch_comm hvin huin hx hy (hij.1.of_target hv hu)] at hji
  exact ⟨_, Machine.run_execute_patch (hr j) hij.1 hv hvin hx hu hattempt', hji⟩

/-- The two halves of `ax`, one raised by a variable and one lowered by a half of `dx`: in either order the word
is the same. -/
theorem execute_commutes_halves :
    ∃ m w', (Machine.load Program.overfull .standard).run .empty = .ok m w' ∧
      let s := (session State.perform ⟨w', m⟩ [.step, .write "count" (.ofInt 7 .byte), .step]).2
      let i : Instruction := .binary .add "ah" (.name "count")
      let j : Instruction := .binary .sub "al" (.name "dl")
      s.machine.scope.Independent i j ∧ ∃ si sj t,
        (Machine.execute i).run s = .ok () si ∧ (Machine.execute j).run s = .ok () sj ∧
          (Machine.execute j).run si = .ok () t ∧ (Machine.execute i).run sj = .ok () t ∧
          t.machine.read t.store "ax" = .ok (.ofInt 0x06FF .word) := by
  refine ⟨_, _, rfl, ?_⟩
  intro s i j
  have hij : s.machine.scope.Independent i j := by decide +kernel
  obtain ⟨t, hit, hjt⟩ := @execute_commutes Program.overfull .standard .empty _ _ rfl rfl s
    ⟨[.step, .write "count" (.ofInt 7 .byte), .step], rfl⟩ i j _ _ rfl rfl hij
  refine ⟨hij, _, _, t, rfl, rfl, hit, hjt, ?_⟩
  cases hit
  decide +kernel

end Octet
