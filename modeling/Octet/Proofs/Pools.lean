import Octet.Proofs.Placement

/-!
# Memory that is used through handles and views

Someone holds handles of blocks and views into them, and uses the store through these alone: makes blocks,
passes handles and views on, looks at ranges of blocks, cuts views, and writes. A view is judged once, when
it is made. That this is enough is what this module shows: whatever is done, in whatever order, every view
that is held lies inside its block, so no later read, write or cut of it has to look at bounds again.

* `Pool`, `Access`, `Pool.perform`, `Pool.after`: what is held, what can be done, and what comes of it.
* `Pool.Change`: the three ways in which a pool can change; `Pool.perform_proper`: there is no fourth.
* `Pool.sound_after`: **every view that is held lies inside its block.**
* `Pool.after_valid`: **accesses stay in range, blocks keep their lengths, and the checks are exact.**
-/

namespace Octet

/-- The store, and the handles and views that are held. -/
structure Pool where
  store : Store
  handles : List Handle
  views : List View

/-- What can be done with memory. Handles and views are given by their places among those that are held;
numbers are words of 64 bits. -/
inductive Access where
  /-- Make a block of zeros and hold its handle. -/
  | allocate (size : UInt64)
  /-- Hold a handle once more. -/
  | share (handle : Nat)
  /-- Hold a handle of the block of a view. -/
  | shareBlock (view : Nat)
  /-- Make a view into a block. -/
  | view (handle : Nat) (offset width : UInt64)
  /-- Make a view of a new block that holds exactly a value. -/
  | detach (x : Value)
  /-- Hold a view once more. -/
  | copyView (view : Nat)
  /-- Cut a view into consecutive views. -/
  | split (view : Nat) (sizes : List UInt64)
  /-- Write a value through a view. -/
  | write (view : Nat) (x : Value)
  /-- Write through one view what another one reads. -/
  | transfer (target source : Nat)
  /-- Replace bytes of a block. -/
  | writeBytes (handle : Nat) (offset : UInt64) (bytes : List UInt8)
  /-- Read bytes of a block. -/
  | readBytes (handle : Nat) (offset length : UInt64)

namespace Pool

/-- Nothing is held. -/
def empty : Pool := ⟨.empty, [], []⟩

/-- The pool with some more views, or the error that there are none. -/
def gain (p : Pool) : Except Error (List View) → Except Error (List UInt8) × Pool
  | .ok vs => (.ok [], { p with views := p.views ++ vs })
  | .error e => (.error e, p)

/-- The pool with another store, or the error that there is none. -/
def change (p : Pool) : Except Error Store → Except Error (List UInt8) × Pool
  | .ok store => (.ok [], { p with store })
  | .error e => (.error e, p)

/-- The bytes that an access reads, or its error, and the pool after it. Nothing happens to what is not
held. -/
def perform (p : Pool) : Access → Except Error (List UInt8) × Pool
  | .allocate size =>
    let (h, store) := p.store.allocZero size.toNat
    (.ok [], { p with store, handles := p.handles ++ [h] })
  | .share i => (.ok [], { p with handles := p.handles ++ p.handles[i]?.toList })
  | .shareBlock i => (.ok [], { p with handles := p.handles ++ (p.views[i]?.map View.handle).toList })
  | .view i offset width =>
    p.handles[i]?.elim (.ok [], p) fun h =>
      p.gain ((View.make p.store h offset.toNat width.toNat).map fun v => [v])
  | .detach x =>
    let (v, store) := View.detached p.store x
    (.ok [], { p with store, views := p.views ++ [v] })
  | .copyView i => (.ok [], { p with views := p.views ++ p.views[i]?.toList })
  | .split i sizes => p.views[i]?.elim (.ok [], p) fun v => p.gain (v.split (sizes.map UInt64.toNat))
  | .write i x => p.views[i]?.elim (.ok [], p) fun v => p.change (v.write p.store x)
  | .transfer i j =>
    p.views[i]?.elim (.ok [], p) fun v =>
      p.views[j]?.elim (.ok [], p) fun u => p.change (v.write p.store (u.read p.store))
  | .writeBytes i offset bytes =>
    p.handles[i]?.elim (.ok [], p) fun h => p.change (p.store.write h offset.toNat bytes)
  | .readBytes i offset length =>
    p.handles[i]?.elim (.ok [], p) fun h => (p.store.read h offset.toNat length.toNat, p)

/-- The pool after some accesses, one after the other. -/
def after (p : Pool) : List Access → Pool
  | [] => p
  | a :: as => (p.perform a).2.after as

/-- The handles name blocks, the views lie inside theirs, and a word can hold the length of a block. -/
structure Sound (p : Pool) : Prop where
  handles : ∀ h ∈ p.handles, p.store.Has h
  views : ∀ v ∈ p.views, v.Inside p.store
  length : ∀ h, (p.store.block h).length < UInt64.size

/-- **The ways in which a pool can change**: more is held of what is there, a block is added, or bytes inside
a block are replaced. -/
inductive Change (p : Pool) : Pool → Prop
  | gains {hs : List Handle} {vs : List View} : (∀ h ∈ hs, p.store.Has h) → (∀ v ∈ vs, v.Inside p.store) →
    Change p ⟨p.store, p.handles ++ hs, p.views ++ vs⟩
  | allocates {bytes : List UInt8} {hs : List Handle} {vs : List View} : bytes.length < UInt64.size →
    (∀ h ∈ hs, (p.store.alloc bytes).2.Has h) → (∀ v ∈ vs, v.Inside (p.store.alloc bytes).2) →
    Change p ⟨(p.store.alloc bytes).2, p.handles ++ hs, p.views ++ vs⟩
  | patches {h : Handle} {offset : Nat} {data : List UInt8} :
    offset + data.length ≤ (p.store.block h).length → Change p ⟨p.store.patch h offset data, p.handles, p.views⟩

end Pool

/-- What reading, writing, cutting and comparing a view rely on without a check: one to eight bytes, all of
them in the block, and an end that does not overflow when it is computed in words. -/
structure View.Valid (s : Store) (v : View) : Prop where
  pos : 1 ≤ v.width.bytes
  le_eight : v.width.bytes ≤ 8
  inside : v.offset + v.width.bytes ≤ (s.block v.handle).length
  loads : (s.range v.handle v.offset v.width.bytes).length = v.width.bytes
  stop : (UInt64.ofNat v.offset + UInt64.ofNat v.width.bytes).toNat = v.offset + v.width.bytes

/-- A sum that a word can hold is the sum of words. -/
theorem toNat_add_ofNat {m n : Nat} (h : m + n < UInt64.size) :
    (UInt64.ofNat m + UInt64.ofNat n).toNat = m + n := by
  have hm : (UInt64.ofNat m).toNat = m := UInt64.toNat_ofNat_of_lt' (by omega)
  have hn : (UInt64.ofNat n).toNat = n := UInt64.toNat_ofNat_of_lt' (by omega)
  rw [UInt64.toNat_add, hm, hn]
  exact Nat.mod_eq_of_lt h

/-- A sum of words is below a bound that a word can hold if it does not overflow and its word is. -/
theorem toNat_add_toNat_le_iff {a b : UInt64} {n : Nat} (hn : n < UInt64.size) :
    a.toNat + b.toNat ≤ n ↔ a ≤ a + b ∧ (a + b).toNat ≤ n := by
  have ha := a.toNat_lt_size
  have hb := b.toNat_lt_size
  rw [UInt64.le_iff_toNat_le, UInt64.toNat_add]
  change _ ↔ a.toNat ≤ (a.toNat + b.toNat) % UInt64.size ∧ (a.toNat + b.toNat) % UInt64.size ≤ n
  rcases Nat.lt_or_ge (a.toNat + b.toNat) UInt64.size with hlt | hge
  · rw [Nat.mod_eq_of_lt hlt]
    omega
  · -- the sum overflows once, and then it is below both words
    have hmod : (a.toNat + b.toNat) % UInt64.size = a.toNat + b.toNat - UInt64.size := by
      rw [Nat.mod_eq_sub_mod hge, Nat.mod_eq_of_lt (by omega)]
    rw [hmod]
    omega

namespace Width

/-- Only one to eight bytes are a width. -/
theorem ofNat_eq (n : Nat) :
    ofNat n = if h : 0 < n ∧ n ≤ 8 then .ok ⟨n, h.1, h.2⟩ else .error (.invalidWidth n) := by
  unfold ofNat ofNat?
  by_cases h : 0 < n ∧ n ≤ 8
  · simp [h]
  · simp [h]

theorem total_of_parts {w : Width} {sizes : List Nat} {ws : List Width} (h : w.parts sizes = .ok ws) :
    total ws = w.bytes := by
  unfold parts at h
  split at h
  case h_1 =>
    split at h
    case isTrue ht => cases h; exact ht
    case isFalse => cases h
  case h_2 => cases h

end Width

namespace Store

variable {s : Store} {h : Handle} {offset width : Nat}

/-- **A range is refused if it ends beyond its block**, and for no other reason. -/
theorem checkRange_eq_error_iff {e : Error} :
    s.checkRange h offset width = .error e ↔
      e = .outOfBounds offset width (s.block h).length ∧ (s.block h).length < offset + width := by
  unfold checkRange
  by_cases hr : offset + width ≤ (s.block h).length
  · rw [if_pos hr]
    simp only [reduceCtorEq, false_iff, not_and]
    omega
  · rw [if_neg hr]
    simp only [Except.error.injEq, eq_comm (a := e)]
    constructor
    · intro he
      exact ⟨he, by omega⟩
    · exact And.left

theorem read_eq_error_iff {e : Error} :
    s.read h offset width = .error e ↔
      e = .outOfBounds offset width (s.block h).length ∧ (s.block h).length < offset + width := by
  rw [← checkRange_eq_error_iff]
  unfold read
  cases s.checkRange h offset width <;> simp [Except.map]

theorem read_ok {bytes : List UInt8} (hb : s.read h offset width = .ok bytes) :
    offset + width ≤ (s.block h).length ∧ bytes = s.range h offset width := by
  unfold read checkRange at hb
  split at hb
  case isTrue hr => cases hb; exact ⟨hr, rfl⟩
  case isFalse => cases hb

theorem write_eq_error_iff {data : List UInt8} {e : Error} :
    s.write h offset data = .error e ↔
      e = .outOfBounds offset data.length (s.block h).length ∧ (s.block h).length < offset + data.length := by
  rw [← checkRange_eq_error_iff]
  unfold write
  cases s.checkRange h offset data.length <;> simp [Except.map]

theorem write_ok {data : List UInt8} {t : Store} (hw : s.write h offset data = .ok t) :
    offset + data.length ≤ (s.block h).length ∧ t = s.patch h offset data := by
  unfold write checkRange at hw
  split at hw
  case isTrue hr => cases hw; exact ⟨hr, rfl⟩
  case isFalse => cases hw

end Store

namespace View

variable {s : Store} {h : Handle} {v : View}

theorem make_eq (s : Store) (h : Handle) (offset width : Nat) :
    make s h offset width =
      if hw : 0 < width ∧ width ≤ 8 then
        (s.checkRange h offset width).map fun _ => ⟨h, offset, ⟨width, hw.1, hw.2⟩⟩
      else .error (.invalidWidth width) := by
  unfold make
  rw [Width.ofNat_eq]
  by_cases hw : 0 < width ∧ width ≤ 8
  · rw [dif_pos hw, dif_pos hw]
    cases s.checkRange h offset width <;> rfl
  · rw [dif_neg hw, dif_neg hw]
    rfl

/-- **A view is refused for its width, or else for its range**, and for no other reason. -/
theorem make_eq_error_iff {offset width : Nat} {e : Error} :
    make s h offset width = .error e ↔
      (e = .invalidWidth width ∧ ¬ (1 ≤ width ∧ width ≤ 8)) ∨
        (e = .outOfBounds offset width (s.block h).length ∧ (1 ≤ width ∧ width ≤ 8) ∧
          (s.block h).length < offset + width) := by
  rw [make_eq]
  by_cases hw : 0 < width ∧ width ≤ 8
  · have hrange : s.checkRange h offset width = .error e ↔ _ := Store.checkRange_eq_error_iff
    have hw' : 1 ≤ width ∧ width ≤ 8 := hw
    rw [dif_pos hw]
    simp only [hw', not_true, and_false, false_or, true_and]
    rw [← hrange]
    cases s.checkRange h offset width <;> simp [Except.map]
  · have hw' : ¬ (1 ≤ width ∧ width ≤ 8) := hw
    rw [dif_neg hw]
    simp only [hw', not_false_eq_true, and_true, false_and, and_false, or_false, Except.error.injEq,
      eq_comm (a := e)]

theorem make_inside {offset width : Nat} (hv : make s h offset width = .ok v) : v.Inside s := by
  rw [make_eq] at hv
  split at hv
  case isTrue hw =>
    unfold Store.checkRange at hv
    split at hv
    case isTrue hr => cases hv; exact hr
    case isFalse => cases hv
  case isFalse => cases hv

theorem write_ok {x : Value} {t : Store} (hw : v.write s x = .ok t) :
    x.width = v.width ∧ t = s.patch v.handle v.offset x.bytes := by
  unfold write at hw
  split at hw
  case isTrue hx => cases hw; exact ⟨hx, rfl⟩
  case isFalse => cases hw

/-- A view of a new block lies inside it. -/
theorem detached_inside (s : Store) (x : Value) : (detached s x).1.Inside (detached s x).2 := by
  show 0 + x.width.bytes ≤ ((s.alloc x.bytes).2.block (s.alloc x.bytes).1).length
  rw [Store.block_alloc, Value.length_bytes]
  omega

/-- **The parts of a view lie inside it.** -/
theorem split_inside (hv : v.Inside s) {sizes : List Nat} {us : List View} (hs : v.split sizes = .ok us) :
    ∀ u ∈ us, u.Inside s := by
  unfold split at hs
  cases hp : v.width.parts sizes with
  | error e => rw [hp] at hs; cases hs
  | ok ws =>
    rw [hp] at hs
    cases hs
    intro u hu
    obtain ⟨hh, -, hstop⟩ := mem_tile ws hu
    rw [Width.total_of_parts hp] at hstop
    unfold Inside at hv ⊢
    rw [hh]
    exact Nat.le_trans hstop hv

end View

namespace Pool

variable {p q : Pool}

theorem sound_empty : empty.Sound := by
  refine ⟨by simp [empty], by simp [empty], ?_⟩
  intro h
  have hnone : ¬ empty.store.Has h := Nat.not_lt_zero _
  rw [Store.block_of_not_has hnone]
  decide

namespace Change

theorem refl (p : Pool) : Change p p := by
  have hsame : Change p ⟨p.store, p.handles ++ [], p.views ++ []⟩ := .gains (by simp) (by simp)
  rwa [List.append_nil, List.append_nil] at hsame

theorem shares {hs : List Handle} (hhs : ∀ h ∈ hs, p.store.Has h) :
    Change p ⟨p.store, p.handles ++ hs, p.views⟩ := by
  have hmore : Change p ⟨p.store, p.handles ++ hs, p.views ++ []⟩ := .gains hhs (by simp)
  rwa [List.append_nil] at hmore

/-- **A change keeps a pool sound.** -/
theorem sound (hq : Change p q) (hp : p.Sound) : q.Sound := by
  cases hq with
  | @gains hs vs hhs hvs =>
    refine ⟨?_, ?_, hp.length⟩
    · intro h hh
      rcases List.mem_append.1 hh with hh | hh
      · exact hp.handles h hh
      · exact hhs h hh
    · intro v hv
      rcases List.mem_append.1 hv with hv | hv
      · exact hp.views v hv
      · exact hvs v hv
  | @allocates bytes hs vs hbytes hhs hvs =>
    refine ⟨?_, ?_, ?_⟩
    · intro h hh
      rcases List.mem_append.1 hh with hh | hh
      · exact Store.has_alloc (hp.handles h hh) bytes
      · exact hhs h hh
    · intro v hv
      rcases List.mem_append.1 hv with hv | hv
      · exact (hp.views v hv).alloc bytes
      · exact hvs v hv
    · intro h
      by_cases hold : p.store.Has h
      · rw [Store.block_alloc_of_has hold]
        exact hp.length h
      · by_cases hnew : h = (p.store.alloc bytes).1
        · rw [hnew, Store.block_alloc]
          exact hbytes
        · have hnone : ¬ (p.store.alloc bytes).2.Has h := by
            intro hh
            have hlt : h.index < p.store.blocks.size + 1 := by
              simpa [Store.Has, Store.alloc] using hh
            have hge : p.store.blocks.size ≤ h.index := Nat.le_of_not_lt hold
            have hindex : h.index = p.store.blocks.size := by omega
            exact hnew (by cases h; cases hindex; rfl)
          rw [Store.block_of_not_has hnone]
          decide
  | @patches h offset data hr =>
    have hlength := Store.length_block_patch hr
    refine ⟨?_, ?_, ?_⟩
    · intro h' hh'
      exact Store.has_patch.2 (hp.handles h' hh')
    · intro v hv
      unfold View.Inside
      rw [hlength]
      exact hp.views v hv
    · intro h'
      rw [hlength]
      exact hp.length h'

/-- **A change keeps every block and its length.** -/
theorem length_block (hq : Change p q) {h : Handle} (hh : p.store.Has h) :
    q.store.Has h ∧ (q.store.block h).length = (p.store.block h).length := by
  cases hq with
  | gains _ _ => exact ⟨hh, rfl⟩
  | allocates _ _ _ => exact ⟨Store.has_alloc hh _, by rw [Store.block_alloc_of_has hh]⟩
  | patches hr => exact ⟨Store.has_patch.2 hh, Store.length_block_patch hr h⟩

end Change

/-- What an access comes to: a change of the pool, and no change if it fails. -/
structure Proper (p : Pool) (result : Except Error (List UInt8) × Pool) : Prop where
  change : Change p result.2
  error : ∀ e, result.1 = .error e → result.2 = p

namespace Proper

theorem ok {bytes : List UInt8} (hq : Change p q) : Proper p (.ok bytes, q) where
  change := hq
  error e h := by cases h

theorem failed (p : Pool) (found : Except Error (List UInt8)) : Proper p (found, p) where
  change := .refl p
  error _ _ := rfl

/-- Nothing happens to what is not held. -/
theorem held {α : Type} {f : α → Except Error (List UInt8) × Pool} (item : Option α)
    (hf : ∀ a, item = some a → Proper p (f a)) : Proper p (item.elim (.ok [], p) f) := by
  cases item with
  | none => exact .failed p _
  | some a => exact hf a rfl

theorem gain {found : Except Error (List View)} (hfound : ∀ vs, found = .ok vs → ∀ v ∈ vs, v.Inside p.store) :
    Proper p (p.gain found) := by
  cases found with
  | error e => exact .failed p _
  | ok vs =>
    have hgain : Change p ⟨p.store, p.handles ++ [], p.views ++ vs⟩ := .gains (by simp) (hfound vs rfl)
    rw [List.append_nil] at hgain
    exact .ok hgain

theorem write (hp : p.Sound) {v : View} (hv : v ∈ p.views) (x : Value) :
    Proper p (p.change (v.write p.store x)) := by
  cases hw : v.write p.store x with
  | error e => exact .failed p _
  | ok t =>
    obtain ⟨hx, rfl⟩ := View.write_ok hw
    exact .ok (.patches ((hp.views v hv).fits hx))

theorem writeBytes (p : Pool) (h : Handle) (offset : Nat) (bytes : List UInt8) :
    Proper p (p.change (p.store.write h offset bytes)) := by
  cases hw : p.store.write h offset bytes with
  | error e => exact .failed p _
  | ok t =>
    obtain ⟨hr, rfl⟩ := Store.write_ok hw
    exact .ok (.patches hr)

end Proper

/-- **Whatever is done to a sound pool, it changes in one of the three ways**, and not at all if it fails. -/
theorem perform_proper (hp : p.Sound) (a : Access) : Proper p (p.perform a) := by
  cases a with
  | allocate size =>
    have hlength : (List.replicate size.toNat (0 : UInt8)).length < UInt64.size := by
      rw [List.length_replicate]
      exact size.toNat_lt_size
    have hhas := Store.has_alloc_self p.store (List.replicate size.toNat 0)
    have hnew : Change p ⟨(p.store.allocZero size.toNat).2, p.handles ++ [(p.store.allocZero size.toNat).1],
        p.views ++ []⟩ := .allocates hlength (fun h hh => List.mem_singleton.1 hh ▸ hhas) (by simp)
    rw [List.append_nil] at hnew
    exact .ok hnew
  | detach x =>
    have hlength : x.bytes.length < UInt64.size := by
      have hwidth := x.width.le_eight
      rw [Value.length_bytes]
      exact Nat.lt_of_le_of_lt hwidth (by decide)
    have hinside : ∀ v ∈ [(View.detached p.store x).1], v.Inside (p.store.alloc x.bytes).2 := by
      intro v hv
      rw [List.mem_singleton.1 hv]
      exact View.detached_inside p.store x
    have hnew : Change p ⟨(View.detached p.store x).2, p.handles ++ [],
        p.views ++ [(View.detached p.store x).1]⟩ := .allocates hlength (by simp) hinside
    rw [List.append_nil] at hnew
    exact .ok hnew
  | share i =>
    have hhas : ∀ h ∈ p.handles[i]?.toList, p.store.Has h := fun h hh =>
      hp.handles h (List.mem_of_getElem? (Option.mem_toList.1 hh))
    exact .ok (.shares hhas)
  | shareBlock i =>
    have hhas : ∀ h ∈ (p.views[i]?.map View.handle).toList, p.store.Has h := by
      intro h hh
      obtain ⟨v, hv, rfl⟩ := Option.map_eq_some_iff.1 (Option.mem_toList.1 hh)
      exact (hp.views v (List.mem_of_getElem? hv)).has
    exact .ok (.shares hhas)
  | copyView i =>
    change Proper p (p.gain (.ok p.views[i]?.toList))
    refine .gain fun vs hvs v hv => ?_
    obtain rfl : p.views[i]?.toList = vs := Except.ok.inj hvs
    exact hp.views v (List.mem_of_getElem? (Option.mem_toList.1 hv))
  | view i offset width =>
    refine .held _ fun h _ => .gain ?_
    intro vs hvs v hv
    cases hmake : View.make p.store h offset.toNat width.toNat with
    | error e => rw [hmake] at hvs; cases hvs
    | ok u =>
      rw [hmake] at hvs
      cases hvs
      rw [List.mem_singleton.1 hv]
      exact View.make_inside hmake
  | split i sizes =>
    refine .held _ fun v hv => .gain ?_
    intro vs hvs
    exact View.split_inside (hp.views v (List.mem_of_getElem? hv)) hvs
  | write i x => exact .held _ fun v hv => .write hp (List.mem_of_getElem? hv) x
  | transfer i j =>
    exact .held _ fun v hv => .held _ fun u _ => .write hp (List.mem_of_getElem? hv) (u.read p.store)
  | writeBytes i offset bytes => exact .held _ fun h _ => .writeBytes p h offset.toNat bytes
  | readBytes i offset length => exact .held _ fun h _ => .failed p _

theorem after_sound (script : List Access) : ∀ p : Pool, p.Sound → (p.after script).Sound := by
  induction script with
  | nil => intro p hp; exact hp
  | cons a as ih => intro p hp; exact ih _ ((perform_proper hp a).change.sound hp)

/-- **Every view that is held lies inside its block**, whatever has been done. -/
theorem sound_after (script : List Access) : (empty.after script).Sound :=
  after_sound script empty sound_empty

/-- **No block changes its length**, whatever is done. -/
theorem length_block_after (script : List Access) : ∀ {p : Pool}, p.Sound → ∀ {h : Handle}, p.store.Has h →
    (p.after script).store.Has h ∧ ((p.after script).store.block h).length = (p.store.block h).length := by
  induction script with
  | nil => intro p _ h hh; exact ⟨hh, rfl⟩
  | cons a as ih =>
    intro p hp h hh
    have hchange := (perform_proper hp a).change
    obtain ⟨hhas, hlength⟩ := hchange.length_block hh
    obtain ⟨hhas', hlength'⟩ := ih (hchange.sound hp) hhas
    exact ⟨hhas', hlength'.trans hlength⟩

/-- A view inside its block is all that an access relies on. -/
theorem Sound.valid (hp : p.Sound) {v : View} (hv : v.Inside p.store) : v.Valid p.store := by
  have hlength := hp.length v.handle
  have hinside : v.offset + v.width.bytes ≤ (p.store.block v.handle).length := hv
  exact ⟨v.width.pos, v.width.le_eight, hinside, hv.length_range, toNat_add_ofNat (by omega)⟩

/-- **Memory that is used through handles and views.** Whatever has been done, each view that is held, and
each part that it can be cut into, is valid for all accesses that follow; blocks keep their lengths. Views are
refused for their width or for an end beyond the block, and ranges for such an end alone, where the end is
the unbounded sum; added as words, the sum is as good if an overflow counts as beyond the block. What fails
changes nothing. -/
theorem after_valid (script : List Access) :
    let p := empty.after script
    (∀ v ∈ p.views, v.Valid p.store ∧
      ∀ sizes us, v.split sizes = .ok us → ∀ u ∈ us, u.Valid p.store) ∧
    (∀ h ∈ p.handles, p.store.Has h) ∧
    (∀ h, p.store.Has h → ∀ later,
      ((p.after later).store.block h).length = (p.store.block h).length) ∧
    (∀ (h : Handle) (offset width : UInt64) (e : Error),
      View.make p.store h offset.toNat width.toNat = .error e ↔
        (e = .invalidWidth width.toNat ∧ ¬ (1 ≤ width.toNat ∧ width.toNat ≤ 8)) ∨
          (e = .outOfBounds offset.toNat width.toNat (p.store.block h).length ∧
            (1 ≤ width.toNat ∧ width.toNat ≤ 8) ∧ (p.store.block h).length < offset.toNat + width.toNat)) ∧
    (∀ (h : Handle) (offset length : UInt64),
      (∀ e, p.store.read h offset.toNat length.toNat = .error e ↔
        e = .outOfBounds offset.toNat length.toNat (p.store.block h).length ∧
          (p.store.block h).length < offset.toNat + length.toNat) ∧
      ∀ bytes, p.store.read h offset.toNat length.toNat = .ok bytes → bytes.length = length.toNat) ∧
    (∀ (h : Handle) (offset : UInt64) (bytes : List UInt8) (e : Error),
      p.store.write h offset.toNat bytes = .error e ↔
        e = .outOfBounds offset.toNat bytes.length (p.store.block h).length ∧
          (p.store.block h).length < offset.toNat + bytes.length) ∧
    (∀ (h : Handle) (a b : UInt64),
      a.toNat + b.toNat ≤ (p.store.block h).length ↔ a ≤ a + b ∧ (a + b).toNat ≤ (p.store.block h).length) ∧
    ∀ a e, (p.perform a).1 = .error e → (p.perform a).2 = p := by
  intro p
  have hp : p.Sound := sound_after script
  refine ⟨?_, hp.handles, ?_, ?_, ?_, ?_, ?_, ?_⟩
  · intro v hv
    have hinside := hp.views v hv
    refine ⟨hp.valid hinside, ?_⟩
    intro sizes us hsplit u hu
    exact hp.valid (View.split_inside hinside hsplit u hu)
  · intro h hh later
    exact (length_block_after later hp hh).2
  · intro h offset width e
    exact View.make_eq_error_iff
  · intro h offset length
    refine ⟨fun e => Store.read_eq_error_iff, ?_⟩
    intro bytes hread
    obtain ⟨hr, rfl⟩ := Store.read_ok hread
    exact Store.length_range hr
  · intro h offset bytes e
    exact Store.write_eq_error_iff
  · intro h a b
    exact toNat_add_toNat_le_iff (hp.length h)
  · intro a e he
    exact (perform_proper hp a).error e he

end Pool
end Octet
