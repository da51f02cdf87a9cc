import Octet.Proofs.Pools

/-!
# What a write can be seen through

A write through a view replaces the bytes that the view covers, and no others. So another view shows the
write if it covers one of them and the new byte differs from the old one, and some value of the right width
always has a byte that differs. Names show what their views show, however the names have come to their views.

* `View.overlaps_iff_covers`: two views overlap if they cover a byte in common.
* `Store.getElem?_block_patch`: the bytes of a block after a range of it has been replaced.
* `View.overlaps_iff_observed`: **views overlap if and only if a write through one shows in the other.**
* `Environment`, `Edit`: names with their views, and the ways to change what they show.
* `sound_stable`: a running machine changes what its names show in these ways only.
* `observation`: **what a write changes, for all views that can be held and all names that can be bound.**
-/

namespace Octet

/-- The view has byte `k` of a block. -/
def View.Covers (v : View) (h : Handle) (k : Nat) : Prop :=
  v.handle = h ∧ v.offset ≤ k ∧ k < v.stop

/-- Bytes of one length are told apart by their number. -/
theorem Bytes.toNat_injective {as bs : List UInt8} (hlength : as.length = bs.length) (h : toNat as = toNat bs) :
    as = bs := by
  rw [← ofNat_toNat as, ← ofNat_toNat bs, hlength, h]

/-- Bytes that fill a width are the bytes of a value. -/
theorem Value.exists_bytes {w : Width} {bs : List UInt8} (hlength : bs.length = w.bytes) :
    ∃ x : Value, x.width = w ∧ x.bytes = bs := by
  have hlt := Bytes.toNat_lt bs
  rw [hlength] at hlt
  refine ⟨⟨w, Bytes.toNat bs, hlt⟩, rfl, ?_⟩
  unfold bytes
  rw [← hlength]
  exact Bytes.ofNat_toNat bs

namespace Store

variable {s : Store} {h h' : Handle} {offset k : Nat} {data : List UInt8}

/-- The bytes of a block after a range of it has been replaced. -/
theorem getElem?_block_patch (hs : s.Has h) (hr : offset + data.length ≤ (s.block h).length) :
    ((s.patch h offset data).block h)[k]? =
      if offset ≤ k ∧ k < offset + data.length then data[k - offset]? else (s.block h)[k]? := by
  have hfirst : ((s.block h).take offset).length = offset := by
    rw [List.length_take]
    omega
  rw [block_patch_self hs]
  simp only [splice, List.getElem?_append, List.length_append, hfirst, List.getElem?_take, List.getElem?_drop]
  by_cases hlow : k < offset
  · rw [if_pos (by omega), if_pos hlow, if_pos hlow, if_neg (by omega)]
  · by_cases hhigh : k < offset + data.length
    · rw [if_pos hhigh, if_neg hlow, if_pos (by omega)]
    · rw [if_neg hhigh, if_neg (by omega)]
      congr 1
      omega

theorem getElem?_range (width i : Nat) :
    (s.range h offset width)[i]? = if i < width then (s.block h)[offset + i]? else none := by
  unfold range
  rw [List.getElem?_take, List.getElem?_drop]

end Store

namespace View

variable {s t : Store} {a b : View} {x : Value}

/-- **Two views overlap if they cover a byte in common.** -/
theorem overlaps_iff_covers : a.overlaps b = true ↔ ∃ h k, a.Covers h k ∧ b.Covers h k := by
  have ha : a.offset < a.stop := Nat.lt_add_of_pos_right a.width.pos
  have hb : b.offset < b.stop := Nat.lt_add_of_pos_right b.width.pos
  simp only [overlaps, Bool.and_eq_true, beq_iff_eq, decide_eq_true_eq]
  constructor
  · rintro ⟨⟨hh, hab⟩, hba⟩
    -- the later one of the two first bytes
    exact ⟨a.handle, max a.offset b.offset, ⟨rfl, by omega, by omega⟩, hh.symm, by omega, by omega⟩
  · rintro ⟨h, k, ⟨hah, hak, hka⟩, hbh, hbk, hkb⟩
    exact ⟨⟨hah.trans hbh.symm, by omega⟩, by omega⟩

/-- Views that read the same have the same bytes. -/
theorem range_eq_of_read_eq (hs : b.Inside s) (ht : b.Inside t) (h : b.read t = b.read s) :
    t.range b.handle b.offset b.width.bytes = s.range b.handle b.offset b.width.bytes := by
  apply Bytes.toNat_injective
  · rw [hs.length_range, ht.length_range]
  · rw [← magnitude_read ht, ← magnitude_read hs, h]

/-- A view shows every change of a byte that it covers. -/
theorem getElem?_of_read_eq (hs : b.Inside s) (ht : b.Inside t) (h : b.read t = b.read s) {k : Nat}
    (hk : b.Covers b.handle k) : (t.block b.handle)[k]? = (s.block b.handle)[k]? := by
  obtain ⟨-, hlow, hhigh⟩ := hk
  have hi : k - b.offset < b.width.bytes := by
    unfold stop at hhigh
    omega
  have hbyte := congrArg (·[k - b.offset]?) (range_eq_of_read_eq hs ht h)
  simp only [Store.getElem?_range, if_pos hi] at hbyte
  rwa [Nat.add_sub_cancel' hlow] at hbyte

theorem Inside.patch (hb : b.Inside s) (ha : a.Inside s) (hx : x.width = a.width) :
    b.Inside (s.patch a.handle a.offset x.bytes) := by
  unfold Inside
  rw [Store.length_block_patch (ha.fits hx)]
  exact hb

/-- **A write changes no byte that the view does not cover.** -/
theorem getElem?_write (ha : a.Inside s) (hw : a.write s x = .ok t) {h : Handle} {k : Nat} (hk : ¬ a.Covers h k) :
    (t.block h)[k]? = (s.block h)[k]? := by
  obtain ⟨hx, rfl⟩ := write_ok hw
  by_cases hh : h = a.handle
  · subst hh
    rw [Store.getElem?_block_patch ha.has (ha.fits hx), if_neg]
    rintro ⟨hlow, hhigh⟩
    rw [Value.length_bytes, hx] at hhigh
    exact hk ⟨rfl, hlow, hhigh⟩
  · rw [Store.block_patch_of_ne hh]

theorem read_write_self (ha : a.Inside s) (hw : a.write s x = .ok t) : a.read t = x := by
  obtain ⟨hx, rfl⟩ := write_ok hw
  exact read_patch_self ha hx

theorem read_write_of_disjoint (ha : a.Inside s) (hw : a.write s x = .ok t) (hd : a.overlaps b = false) :
    b.read t = b.read s := by
  obtain ⟨hx, rfl⟩ := write_ok hw
  exact read_patch_of_disjoint ha hx hd

/-- A byte that a view covers can be changed through the view. -/
theorem exists_write_of_covers (ha : a.Inside s) {h : Handle} {k : Nat} (hk : a.Covers h k) :
    ∃ x : Value, x.width = a.width ∧ ((s.patch a.handle a.offset x.bytes).block h)[k]? ≠ (s.block h)[k]? := by
  obtain ⟨rfl, hlow, hhigh⟩ := hk
  have hlt : k < (s.block a.handle).length := Nat.lt_of_lt_of_le hhigh ha
  -- all bytes of the value are one byte that is not there yet
  obtain ⟨d, hd⟩ : ∃ d : UInt8, d ≠ (s.block a.handle).get ⟨k, hlt⟩ := by
    by_cases hzero : (s.block a.handle).get ⟨k, hlt⟩ = 0
    · exact ⟨1, by rw [hzero]; decide⟩
    · exact ⟨0, Ne.symm hzero⟩
  have hlength : (List.replicate a.width.bytes d).length = a.width.bytes := List.length_replicate
  obtain ⟨x, hx, hbytes⟩ := Value.exists_bytes hlength
  refine ⟨x, hx, ?_⟩
  have hi : k - a.offset < a.width.bytes := by
    unfold stop at hhigh
    omega
  have hnew : x.bytes[k - a.offset]? = some d := by
    rw [hbytes, List.getElem?_replicate, if_pos hi]
  rw [Store.getElem?_block_patch ha.has (ha.fits hx), Value.length_bytes, hx, if_pos ⟨hlow, hhigh⟩, hnew,
    List.getElem?_eq_getElem hlt]
  exact fun h => hd (Option.some.inj h)

/-- **Views overlap if and only if a write through one shows in the other.** -/
theorem overlaps_iff_observed (ha : a.Inside s) (hb : b.Inside s) :
    a.overlaps b = true ↔ ∃ x t, x.width = a.width ∧ a.write s x = .ok t ∧ b.read t ≠ b.read s := by
  constructor
  · intro hoverlaps
    obtain ⟨h, k, hak, hbk⟩ := overlaps_iff_covers.1 hoverlaps
    obtain ⟨x, hx, hbyte⟩ := exists_write_of_covers ha hak
    refine ⟨x, _, hx, if_pos hx, ?_⟩
    intro hread
    obtain rfl : b.handle = h := hbk.1
    exact hbyte (getElem?_of_read_eq hb (hb.patch ha hx) hread hbk)
  · rintro ⟨x, t, -, hw, hread⟩
    apply Classical.byContradiction
    intro hd
    rw [Bool.not_eq_true] at hd
    exact hread (read_write_of_disjoint ha hw hd)

end View

/-- Names with their views, and the store that the views look into. -/
structure Environment where
  scope : Scope
  store : Store

/-- A change of what the names show. -/
inductive Edit where
  /-- Write a value through the view of a name. -/
  | write (name : String) (x : Value)
  /-- Give a name a view of a new block that holds exactly a value. -/
  | detach (name : String) (x : Value)
  /-- Give a name the view that another name has. -/
  | share (name target : String)

namespace Environment

/-- The environment after a change. What fails changes nothing. -/
def edit (env : Environment) : Edit → Environment
  | .write name x =>
    match env.scope.write env.store name x with
    | .ok store => { env with store }
    | .error _ => env
  | .detach name x =>
    let (v, store) := View.detached env.store x
    ⟨env.scope.bind name v, store⟩
  | .share name target =>
    match env.scope.lookup? target with
    | some v => { env with scope := env.scope.bind name v }
    | none => env

/-- The environment after some changes, one after the other. -/
def after (env : Environment) : List Edit → Environment
  | [] => env
  | c :: cs => (env.edit c).after cs

/-- Every name has a view that lies inside its block. -/
def Sound (env : Environment) : Prop :=
  ∀ name v, env.scope.lookup? name = some v → v.Inside env.store

variable {env : Environment}

theorem Sound.bind (henv : env.Sound) {v : View} (hv : v.Inside env.store) (name : String) :
    Sound { env with scope := env.scope.bind name v } := by
  intro other u hu
  rw [Scope.lookup?_bind] at hu
  split at hu
  case isTrue => cases hu; exact hv
  case isFalse => exact henv other u hu

end Environment

/-- A successful write to a name is a write through its view. -/
theorem Scope.write_ok {scope : Scope} {s t : Store} {name : String} {x : Value}
    (hw : scope.write s name x = .ok t) : ∃ v, scope.lookup? name = some v ∧ v.write s x = .ok t := by
  unfold write get at hw
  cases hv : scope.lookup? name with
  | none => rw [hv] at hw; cases hw
  | some v =>
    rw [hv] at hw
    exact ⟨v, rfl, hw⟩

theorem Scope.read_of_lookup? {scope : Scope} {name : String} {v : View} (hv : scope.lookup? name = some v)
    (s : Store) : scope.read s name = .ok (v.read s) := by
  unfold read get
  rw [hv]
  rfl

namespace Environment

variable {env : Environment}

/-- **A change keeps the views of all names inside their blocks.** -/
theorem Sound.edit (henv : env.Sound) (c : Edit) : (env.edit c).Sound := by
  cases c with
  | write name x =>
    cases hw : env.scope.write env.store name x with
    | error e => simpa only [Environment.edit, hw] using henv
    | ok store =>
      obtain ⟨v, hv, hwrite⟩ := Scope.write_ok hw
      obtain ⟨hx, rfl⟩ := View.write_ok hwrite
      simp only [Environment.edit, hw]
      intro other u hu
      exact (henv other u hu).patch (henv name v hv) hx
  | detach name x =>
    have hkept : Sound ⟨env.scope, (View.detached env.store x).2⟩ := fun other u hu =>
      (henv other u hu).alloc x.bytes
    exact hkept.bind (View.detached_inside env.store x) name
  | share name target =>
    cases hv : env.scope.lookup? target with
    | none => simpa only [Environment.edit, hv] using henv
    | some v => simpa only [Environment.edit, hv] using henv.bind (henv target v hv) name

theorem Sound.after (edits : List Edit) : ∀ {env : Environment}, env.Sound → (env.after edits).Sound := by
  induction edits with
  | nil => intro env henv; exact henv
  | cons c cs ih => intro env henv; exact ih (henv.edit c)

/-- The names of a loaded scope have views inside their blocks. -/
theorem sound_load {ds : List Declaration} {w w' : World} {scope : Scope}
    (hload : (Scope.load ds).run w = .ok scope w') : Sound ⟨scope, w'.store⟩ := by
  -- a program of these declarations alone places the names in the same way
  have hloaded : Scope.Loaded (Program.mk ds []).declarations w.store scope w'.store := Scope.load_ok hload
  have hplaced : Placed ⟨ds, []⟩ scope.data scope.registers _ ⟨w', ⟨⟨ds, []⟩, .standard, scope, 0, .zero⟩⟩ :=
    hloaded.placed
  intro name v hv
  exact hplaced.inside_of_lookup hv

/-- What a write to a name changes. -/
theorem Sound.write (henv : env.Sound) {name : String} {x : Value} {t : Store}
    (hw : env.scope.write env.store name x = .ok t) :
    ∃ v, env.scope.lookup? name = some v ∧
      (∀ other, env.scope.lookup? other = some v → env.scope.read t other = .ok x) ∧
      ∀ other, env.scope.read t other ≠ env.scope.read env.store other →
        ∃ u, env.scope.lookup? other = some u ∧ v.overlaps u = true := by
  obtain ⟨v, hv, hw⟩ := Scope.write_ok hw
  have hinside := henv name v hv
  refine ⟨v, hv, ?_, ?_⟩
  · intro other hother
    rw [Scope.read_of_lookup? hother, View.read_write_self hinside hw]
  · intro other hread
    cases hu : env.scope.lookup? other with
    | none =>
      -- a name without a view has no value, before and after
      unfold Scope.read Scope.get at hread
      rw [hu] at hread
      exact absurd rfl hread
    | some u =>
      refine ⟨u, rfl, ?_⟩
      rw [Scope.read_of_lookup? hu, Scope.read_of_lookup? hu] at hread
      apply Classical.byContradiction
      intro hd
      rw [Bool.not_eq_true] at hd
      exact hread (congrArg Except.ok (View.read_write_of_disjoint hinside hw hd))

end Environment

/-- The names of a machine, and the store that their views look into. -/
def State.environment (s : State) : Environment :=
  ⟨s.machine.scope, s.store⟩

theorem State.environment_assign {s : State} {name : String} {x : Value}
    (ha : s.machine.scope.admit name x = .ok ()) :
    (s.assign name x).environment = s.environment.edit (.write name x) := by
  obtain ⟨v, hv, hw⟩ := Scope.admit_ok ha
  have hwrite : s.machine.scope.write s.store name x = .ok (s.store.patch v.handle v.offset x.bytes) := by
    unfold Scope.write Scope.get
    rw [hv, ok_bind]
    exact if_pos hw
  unfold environment
  rw [machine_assign, store_assign hv]
  simp only [Environment.edit, hwrite]

/-- **The names of a machine keep views inside their blocks**: what an instruction does to them is a write or a
new block. -/
theorem sound_stable : Stable fun s => s.environment.Sound where
  log _ _ hs := hs
  assign s name x hs ha := by
    rw [State.environment_assign ha]
    exact hs.edit _
  execute s i x hs _ hx := by
    show (s.deliver i x).environment.Sound
    obtain ⟨-, ha, hd⟩ | ⟨-, -, hd⟩ := State.deliver_cases hx
    · rw [hd, State.environment_assign ha]
      exact hs.edit _
    · rw [hd]
      exact hs.edit (.detach Register.dx.name x)

/-- In whatever state a loaded machine is, its names have views inside their blocks. -/
theorem Reaches.sound {p : Program} {settings : Settings} {w w' : World} {m : Machine} {s : State}
    (hs : Reaches ⟨w', m⟩ s) (hload : (Machine.load p settings).run w = .ok m w') : s.environment.Sound := by
  obtain ⟨scope, rfl, hl⟩ := Machine.load_ok hload
  refine hs.invariant sound_stable ?_
  intro name v hv
  exact hl.placed.inside_of_lookup hv

/-- **What a write changes.** Of the views that are held, two overlap if and only if some value that is
written through the first shows in the second; a written view reads the written value, bytes that it does not
cover are the same in every block, and views that do not overlap it read the same. Of the names of a scope,
however they have been written and bound anew, all those with the written view read the written value, and a
name that reads another value than before has a view that overlaps the written one. -/
theorem observation :
    (∀ script : List Access,
      let p := Pool.empty.after script
      ∀ a ∈ p.views, ∀ b ∈ p.views,
        (a.overlaps b = true ↔
          ∃ x t, x.width = a.width ∧ a.write p.store x = .ok t ∧ b.read t ≠ b.read p.store) ∧
        a.overlaps b = b.overlaps a ∧
        ∀ x t, a.write p.store x = .ok t →
          a.read t = x ∧
          (∀ h k, ¬ a.Covers h k → (t.block h)[k]? = (p.store.block h)[k]?) ∧
          (a.overlaps b = false → b.read t = b.read p.store)) ∧
    ∀ (ds : List Declaration) (w w' : World) (scope : Scope), (Scope.load ds).run w = .ok scope w' →
      ∀ edits : List Edit,
        let env := (Environment.mk scope w'.store).after edits
        ∀ name x t, env.scope.write env.store name x = .ok t →
          ∃ v, env.scope.lookup? name = some v ∧
            (∀ other, env.scope.lookup? other = some v → env.scope.read t other = .ok x) ∧
            ∀ other, env.scope.read t other ≠ env.scope.read env.store other →
              ∃ u, env.scope.lookup? other = some u ∧ v.overlaps u = true := by
  refine ⟨?_, ?_⟩
  · intro script p a ha b hb
    have hp : p.Sound := Pool.sound_after script
    have hinside := hp.views a ha
    refine ⟨View.overlaps_iff_observed hinside (hp.views b hb), View.overlaps_comm a b, ?_⟩
    intro x t hw
    refine ⟨View.read_write_self hinside hw, ?_, View.read_write_of_disjoint hinside hw⟩
    intro h k hk
    exact View.getElem?_write hinside hw hk
  · intro ds w w' scope hload edits env name x t hw
    have henv : env.Sound := (Environment.sound_load hload).after edits
    exact henv.write hw

/-- Two words that have one byte in common show each other's writes, and a word of another block shows none
of them. A name that shares the detached view of `ax` shows what is written to `ax`; `al` has kept its view
of the registers. -/
theorem observation_words :
    (let p := Pool.empty.after [.allocate 4, .view 0 0 2, .view 0 1 2, .allocate 4, .view 1 1 2]
      ∃ a b c, p.views = [a, b, c] ∧
        (∃ x t, x.width = a.width ∧ a.write p.store x = .ok t ∧ b.read t ≠ b.read p.store) ∧
        ¬ ∃ x t, x.width = a.width ∧ a.write p.store x = .ok t ∧ c.read t ≠ c.read p.store) ∧
    ∃ scope w', (Scope.load []).run .empty = .ok scope w' ∧
      let env := (Environment.mk scope w'.store).after
        [.write "al" (.ofInt 3 .byte), .detach "ax" (.ofInt 1 .word), .share "x" "ax"]
      ∃ t, env.scope.write env.store "ax" (.ofInt 7 .word) = .ok t ∧
        env.scope.read t "x" = .ok (.ofInt 7 .word) ∧ env.scope.read t "al" = .ok (.ofInt 3 .byte) := by
  obtain ⟨hviews, hnames⟩ := observation
  refine ⟨⟨⟨⟨0⟩, 0, .word⟩, ⟨⟨0⟩, 1, .word⟩, ⟨⟨1⟩, 1, .word⟩, by decide +kernel, ?_, ?_⟩,
    _, _, rfl, _, rfl, ?_, ?_⟩
  · exact (hviews _ _ (by decide +kernel) _ (by decide +kernel)).1.1 (by decide)
  · exact fun hshown =>
      absurd ((hviews _ _ (by decide +kernel) _ (by decide +kernel)).1.2 hshown) (by decide)
  · obtain ⟨v, hv, hshared, -⟩ := hnames [] .empty _ _ rfl
      [.write "al" (.ofInt 3 .byte), .detach "ax" (.ofInt 1 .word), .share "x" "ax"] "ax" (.ofInt 7 .word) _ rfl
    refine hshared "x" (Eq.trans ?_ hv)
    decide +kernel
  · rfl

end Octet
