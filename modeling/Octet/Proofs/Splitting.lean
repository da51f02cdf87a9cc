import Mathlib.Algebra.GroupWithZero.Nat
import Mathlib.Algebra.Order.BigOperators.Group.List
import Mathlib.Algebra.Order.Group.Nat
import Octet.Proofs.Observation

/-!
# Parts of a view and parts of its value

A view is cut by moving along its block, and a value by dividing its magnitude. Both take the same lists of
sizes, and the two ways meet: the parts of a view read the parts of what the view reads. The other way round,
what is written through the parts, in whatever order, is joined in the order of the parts.

* `Width.parts_of_cuts`, `Width.parts_of_not_cuts`: which lists of sizes cut a width.
* `View.getElem?_tile`, `Value.getElem?_cut`: where each part of a view and of a number stands.
* `View.map_read_tile`: **consecutive views read the parts of the number that their bytes denote.**
* `View.writeAll_written`: what writes through views without a common byte leave behind, in any order.
* `View.split_agrees`: **cutting a view agrees with cutting its value, in both directions.**
-/

namespace Octet

namespace Width

/-- The sizes cut a width into parts of which none is empty. -/
def Cuts (w : Width) (sizes : List Nat) : Prop :=
  0 ∉ sizes ∧ sizes.sum = w.bytes

instance (w : Width) (sizes : List Nat) : Decidable (w.Cuts sizes) :=
  inferInstanceAs (Decidable (_ ∧ _))

theorem total_eq_sum (ws : List Width) : total ws = (ws.map bytes).sum := by
  induction ws with
  | nil => rfl
  | cons w ws ih => rw [total, ih, List.map_cons, List.sum_cons]

theorem mapM_ofNat?_bytes (ws : List Width) : (ws.map bytes).mapM ofNat? = some ws := by
  induction ws with
  | nil => rfl
  | cons w ws ih =>
    have hw : ofNat? w.bytes = some w := dif_pos ⟨w.pos, w.le_eight⟩
    simp [hw, ih]

theorem map_bytes_of_mapM (sizes : List Nat) : ∀ {ws : List Width}, sizes.mapM ofNat? = some ws →
    ws.map bytes = sizes := by
  induction sizes with
  | nil => intro ws h; cases h; rfl
  | cons n sizes ih =>
    intro ws h
    simp only [List.mapM_cons, Option.pure_def, Option.bind_eq_bind, Option.bind_eq_some_iff,
      Option.some.injEq] at h
    obtain ⟨w, hw, rest, hrest, rfl⟩ := h
    have hbytes : w.bytes = n := by
      unfold ofNat? at hw
      split at hw
      case isTrue => cases hw; rfl
      case isFalse => cases hw
    rw [List.map_cons, hbytes, ih hrest]

/-- Numbers of one to eight bytes are widths. -/
theorem exists_map_bytes (sizes : List Nat) : (∀ n ∈ sizes, 0 < n ∧ n ≤ 8) →
    ∃ ws : List Width, ws.map bytes = sizes := by
  induction sizes with
  | nil => intro _; exact ⟨[], rfl⟩
  | cons n sizes ih =>
    intro h
    obtain ⟨ws, hws⟩ := ih fun m hm => h m (List.mem_cons_of_mem _ hm)
    obtain ⟨hpos, hle⟩ := h n List.mem_cons_self
    exact ⟨⟨n, hpos, hle⟩ :: ws, by rw [List.map_cons, hws]⟩

variable {w : Width} {sizes : List Nat}

/-- **Sizes that cut a width are the sizes of its parts.** -/
theorem parts_of_cuts (h : w.Cuts sizes) : ∃ ws, w.parts sizes = .ok ws ∧ ws.map bytes = sizes := by
  obtain ⟨hzero, hsum⟩ := h
  have hbounds : ∀ n ∈ sizes, 0 < n ∧ n ≤ 8 := by
    intro n hn
    have hle : n ≤ sizes.sum := List.le_sum_of_mem hn
    have hn' : n ≠ 0 := fun h => hzero (h ▸ hn)
    have := w.le_eight
    omega
  obtain ⟨ws, rfl⟩ := exists_map_bytes sizes hbounds
  refine ⟨ws, ?_, rfl⟩
  unfold parts
  rw [mapM_ofNat?_bytes]
  exact if_pos ((total_eq_sum ws).trans hsum)

/-- **Sizes that do not cut a width are refused.** -/
theorem parts_of_not_cuts (h : ¬ w.Cuts sizes) : w.parts sizes = .error (.invalidSplit w.bytes sizes) := by
  unfold parts
  cases hws : sizes.mapM ofNat? with
  | none => rfl
  | some ws =>
    have hsizes := map_bytes_of_mapM sizes hws
    refine if_neg fun htotal => h ⟨?_, ?_⟩
    · intro hzero
      rw [← hsizes, List.mem_map] at hzero
      obtain ⟨u, -, hu⟩ := hzero
      exact Nat.ne_of_gt u.pos hu
    · rw [← hsizes, ← total_eq_sum, htotal]

end Width

/-- Where each part of a number stands in it: behind the bytes of the parts before it. -/
theorem Value.getElem?_cut (ws : List Width) : ∀ m i : Nat,
    (cut m ws)[i]? = ws[i]?.map fun w => ofNat (m / 256 ^ Width.total (ws.take i)) w := by
  induction ws with
  | nil => intro m i; rfl
  | cons w ws ih =>
    intro m i
    cases i with
    | zero => simp [cut, Width.total]
    | succ i =>
      have hdiv : m / w.modulus / 256 ^ Width.total (ws.take i) = m / 256 ^ (w.bytes + Width.total (ws.take i)) := by
        rw [Nat.div_div_eq_div_mul, Nat.pow_add]
        rfl
      rw [cut, List.getElem?_cons_succ, List.getElem?_cons_succ, List.take_succ_cons, Width.total, ih, hdiv]

namespace View

variable {s t : Store} {h : Handle} {v : View}

/-- The bytes of a reading are those of the view. -/
theorem bytes_read (hv : v.Inside s) : (v.read s).bytes = s.range v.handle v.offset v.width.bytes := by
  apply Bytes.toNat_injective
  · rw [Value.length_bytes, hv.length_range, width_read]
  · rw [Value.toNat_bytes, magnitude_read hv]

theorem inside_of_mem_tile {ws : List Width} {offset : Nat} (hr : offset + Width.total ws ≤ (s.block h).length)
    {u : View} (hu : u ∈ tile h offset ws) : u.Inside s := by
  obtain ⟨rfl, -, hstop⟩ := mem_tile ws hu
  exact Nat.le_trans hstop hr

/-- Where each one of consecutive views is. -/
theorem getElem?_tile (h : Handle) (ws : List Width) : ∀ (offset i : Nat),
    (tile h offset ws)[i]? = ws[i]?.map fun w => ⟨h, offset + Width.total (ws.take i), w⟩ := by
  induction ws with
  | nil => intro offset i; rfl
  | cons w ws ih =>
    intro offset i
    cases i with
    | zero => rfl
    | succ i =>
      rw [tile, List.getElem?_cons_succ, List.getElem?_cons_succ, List.take_succ_cons, Width.total, ih]
      simp only [Nat.add_assoc]

theorem map_width_tile (h : Handle) (ws : List Width) : ∀ offset, (tile h offset ws).map width = ws := by
  induction ws with
  | nil => intro offset; rfl
  | cons w ws ih => intro offset; rw [tile, List.map_cons, ih]

/-- Consecutive views cover the range that they fill. -/
theorem covers_tile {ws : List Width} {offset : Nat} {h' : Handle} {k : Nat} :
    (∃ u ∈ tile h offset ws, u.Covers h' k) ↔ h = h' ∧ offset ≤ k ∧ k < offset + Width.total ws := by
  constructor
  · rintro ⟨u, hu, rfl, hlow, hhigh⟩
    obtain ⟨hh, hlow', hhigh'⟩ := mem_tile ws hu
    exact ⟨hh.symm, by omega, by omega⟩
  · rintro ⟨rfl, hlow, hhigh⟩
    obtain ⟨u, hu, hk⟩ := exists_mem_tile h ws hlow hhigh
    exact ⟨u, hu, (mem_tile ws hu).1, hk⟩

/-- The bytes of consecutive views are the bytes of their range, in order. -/
theorem flatMap_bytes_tile (ws : List Width) : ∀ {offset : Nat}, offset + Width.total ws ≤ (s.block h).length →
    (tile h offset ws).flatMap (fun u => (u.read s).bytes) = s.range h offset (Width.total ws) := by
  induction ws with
  | nil => intro offset _; simp [tile, Width.total, Store.range]
  | cons w ws ih =>
    intro offset hr
    have hfirst : Inside s ⟨h, offset, w⟩ := inside_of_mem_tile hr List.mem_cons_self
    rw [Width.total] at hr
    rw [tile, List.flatMap_cons, bytes_read hfirst, ih (by omega), Width.total, Store.range_add]

/-- **Consecutive views read the parts of the number that their bytes denote**: the first view has the
remainder by its modulus, and the others have the quotient. -/
theorem map_read_tile (ws : List Width) : ∀ {offset : Nat}, offset + Width.total ws ≤ (s.block h).length →
    (tile h offset ws).map (read s) = Value.cut (Bytes.toNat (s.range h offset (Width.total ws))) ws := by
  induction ws with
  | nil => intro offset _; rfl
  | cons w ws ih =>
    intro offset hr
    have hfirst : Inside s ⟨h, offset, w⟩ := inside_of_mem_tile hr List.mem_cons_self
    have hlt : (read s ⟨h, offset, w⟩).magnitude < w.modulus := (read s ⟨h, offset, w⟩).lt_modulus
    have hnumber : Bytes.toNat (s.range h offset (Width.total (w :: ws))) =
        (read s ⟨h, offset, w⟩).magnitude +
          w.modulus * Bytes.toNat (s.range h (offset + w.bytes) (Width.total ws)) := by
      rw [Width.total, Store.range_add, Bytes.toNat_append, hfirst.length_range, magnitude_read hfirst]
      rfl
    have hmod : Value.ofNat (Bytes.toNat (s.range h offset (Width.total (w :: ws)))) w =
        read s ⟨h, offset, w⟩ := by
      refine Value.ext rfl ?_
      show _ % w.modulus = _
      rw [hnumber, Nat.add_mul_mod_self_left, Nat.mod_eq_of_lt hlt]
    have hdiv : Bytes.toNat (s.range h offset (Width.total (w :: ws))) / w.modulus =
        Bytes.toNat (s.range h (offset + w.bytes) (Width.total ws)) := by
      rw [hnumber, Nat.add_mul_div_left _ _ w.modulus_pos, Nat.div_eq_of_lt hlt, Nat.zero_add]
    rw [Width.total] at hr
    rw [tile, List.map_cons, Value.cut, hmod, hdiv, ih (by omega)]

/-- Writes through views, one after the other. The first one that fails decides. -/
def writeAll (s : Store) : List (View × Value) → Except Error Store
  | [] => .ok s
  | (u, x) :: rest => u.write s x >>= fun t => writeAll t rest

/-- What writes through views have left behind. -/
structure Written (s : Store) (writes : List (View × Value)) (t : Store) : Prop where
  reads : ∀ e ∈ writes, e.1.read t = e.2
  apart : ∀ v : View, (∀ e ∈ writes, e.1.overlaps v = false) → v.read t = v.read s
  frame : ∀ h k, (∀ e ∈ writes, ¬ e.1.Covers h k) → (t.block h)[k]? = (s.block h)[k]?
  inside : ∀ v : View, v.Inside s → v.Inside t

/-- **Writes of the right widths through views without a common byte all succeed, and all of them last.** -/
theorem writeAll_written (writes : List (View × Value)) : ∀ {s : Store}, (∀ e ∈ writes, e.1.Inside s) →
    (∀ e ∈ writes, e.2.width = e.1.width) → (writes.Pairwise fun a b => a.1.overlaps b.1 = false) →
    ∃ t, writeAll s writes = .ok t ∧ Written s writes t := by
  induction writes with
  | nil => intro s _ _ _; exact ⟨s, rfl, by simp, fun _ _ => rfl, fun _ _ _ => rfl, fun _ hv => hv⟩
  | cons first rest ih =>
    intro s hinside hwidth hpairwise
    obtain ⟨u, x⟩ := first
    rw [List.forall_mem_cons] at hinside hwidth
    rw [List.pairwise_cons] at hpairwise
    have hw : u.write s x = .ok (s.patch u.handle u.offset x.bytes) := if_pos hwidth.1
    have hkept : ∀ v : View, v.Inside s → v.Inside (s.patch u.handle u.offset x.bytes) := fun v hv =>
      hv.patch hinside.1 hwidth.1
    obtain ⟨t, ht, hrest⟩ := ih (fun e he => hkept e.1 (hinside.2 e he)) hwidth.2 hpairwise.2
    refine ⟨t, ?_, ?_, ?_, ?_, ?_⟩
    · rw [writeAll, hw, ok_bind, ht]
    · -- the later writes are apart from the first one
      rw [List.forall_mem_cons]
      refine ⟨?_, hrest.reads⟩
      have hfirst : u.read t = u.read (s.patch u.handle u.offset x.bytes) :=
        hrest.apart u fun e he => by rw [overlaps_comm, hpairwise.1 e he]
      exact hfirst.trans (read_write_self hinside.1 hw)
    · intro v hv
      rw [List.forall_mem_cons] at hv
      exact (hrest.apart v hv.2).trans (read_write_of_disjoint hinside.1 hw hv.1)
    · intro h k hk
      rw [List.forall_mem_cons] at hk
      exact (hrest.frame h k hk.2).trans (getElem?_write hinside.1 hw hk.1)
    · intro v hv
      exact hrest.inside v (hkept v hv)

/-- **The order of writes through views without a common byte does not matter.** -/
theorem writeAll_perm {order writes : List (View × Value)} (horder : order.Perm writes)
    (hinside : ∀ e ∈ writes, e.1.Inside s) (hwidth : ∀ e ∈ writes, e.2.width = e.1.width)
    (hpairwise : writes.Pairwise fun a b => a.1.overlaps b.1 = false) :
    ∃ t, writeAll s order = .ok t ∧ Written s writes t := by
  have hmem : ∀ e, e ∈ order ↔ e ∈ writes := fun e => horder.mem_iff
  have hsymm : ∀ {a b : View × Value}, a.1.overlaps b.1 = false → b.1.overlaps a.1 = false := by
    intro a b hab
    rw [overlaps_comm, hab]
  obtain ⟨t, ht, hwritten⟩ := writeAll_written order (fun e he => hinside e ((hmem e).1 he))
    (fun e he => hwidth e ((hmem e).1 he)) ((horder.pairwise_iff hsymm).2 hpairwise)
  refine ⟨t, ht, ?_, ?_, ?_, hwritten.inside⟩
  · intro e he
    exact hwritten.reads e ((hmem e).2 he)
  · intro v hv
    exact hwritten.apart v fun e he => hv e ((hmem e).1 he)
  · intro h k hk
    exact hwritten.frame h k fun e he => hk e ((hmem e).1 he)

/-- What is written through consecutive views, in any order, is read through them in their order. -/
theorem writeAll_tile {ws : List Width} {offset : Nat} (hr : offset + Width.total ws ≤ (s.block h).length)
    {xs : List Value} (hxs : xs.map Value.width = (tile h offset ws).map width) {order : List (View × Value)}
    (horder : order.Perm ((tile h offset ws).zip xs)) :
    ∃ t, writeAll s order = .ok t ∧ (tile h offset ws).map (read t) = xs ∧
      (∀ v : View, v.Inside s → v.Inside t) ∧
      ∀ h' k, (∀ u ∈ tile h offset ws, ¬ u.Covers h' k) → (t.block h')[k]? = (s.block h')[k]? := by
  have hlength : (tile h offset ws).length = xs.length := by
    have hwidths := congrArg List.length hxs
    rw [List.length_map, List.length_map] at hwidths
    exact hwidths.symm
  have hviews : ((tile h offset ws).zip xs).map Prod.fst = tile h offset ws :=
    List.map_fst_zip (Nat.le_of_eq hlength)
  have hvalues : ((tile h offset ws).zip xs).map Prod.snd = xs := List.map_snd_zip (Nat.le_of_eq hlength.symm)
  have hmem : ∀ e ∈ (tile h offset ws).zip xs, e.1 ∈ tile h offset ws := fun e he =>
    hviews ▸ List.mem_map_of_mem he
  have hwidth : ∀ e ∈ (tile h offset ws).zip xs, e.2.width = e.1.width := by
    intro e he
    obtain ⟨i, hi⟩ := List.mem_iff_getElem?.1 he
    rw [List.getElem?_zip_eq_some] at hi
    have hwidths := congrArg (·[i]?) hxs
    simpa [hi] using hwidths
  have hpairwise : ((tile h offset ws).zip xs).Pairwise fun a b => a.1.overlaps b.1 = false := by
    have htile := pairwise_tile h ws offset
    rw [← hviews, List.pairwise_map] at htile
    exact htile
  obtain ⟨t, ht, hwritten⟩ :=
    writeAll_perm horder (fun e he => inside_of_mem_tile hr (hmem e he)) hwidth hpairwise
  refine ⟨t, ht, ?_, hwritten.inside, ?_⟩
  · calc (tile h offset ws).map (read t)
        = (((tile h offset ws).zip xs).map Prod.fst).map (read t) := by rw [hviews]
      _ = ((tile h offset ws).zip xs).map fun e => e.1.read t := List.map_map
      _ = ((tile h offset ws).zip xs).map Prod.snd := List.map_congr_left hwritten.reads
      _ = xs := hvalues
  · intro h' k hk
    exact hwritten.frame h' k fun e he => hk e.1 (hmem e he)

/-- **Cutting a view agrees with cutting its value.** Both fail alike if the sizes do not cut the width. Else
the parts of the view, in order, read the parts of the value, its digits in base `256` group by group; they
follow each other from where the view starts, each could be made there as a view of its own, and they share no
byte and cover what the view covers. What is written through them, in any order, is what the view reads in
their order, and nothing else changes. -/
theorem split_agrees (script : List Access) :
    let p := Pool.empty.after script
    ∀ v ∈ p.views, ∀ sizes : List Nat,
      (¬ v.width.Cuts sizes →
        v.split sizes = .error (.invalidSplit v.width.bytes sizes) ∧
        (v.read p.store).split sizes = .error (.invalidSplit v.width.bytes sizes)) ∧
      (v.width.Cuts sizes → ∃ us,
        v.split sizes = .ok us ∧
        (v.read p.store).split sizes = .ok (us.map (read p.store)) ∧
        us.map (fun u => u.width.bytes) = sizes ∧
        (∀ i u, us[i]? = some u → u.handle = v.handle ∧ u.offset = v.offset + (sizes.take i).sum ∧
          (u.read p.store).magnitude =
            (v.read p.store).magnitude / 256 ^ (sizes.take i).sum % 256 ^ u.width.bytes) ∧
        (∀ u ∈ us, View.make p.store u.handle u.offset u.width.bytes = .ok u) ∧
        (us.Pairwise fun a b => a.overlaps b = false) ∧
        (∀ h k, v.Covers h k ↔ ∃ u ∈ us, u.Covers h k) ∧
        ∀ xs : List Value, xs.map Value.width = us.map width → ∀ order : List (View × Value),
          order.Perm (us.zip xs) → ∃ t, writeAll p.store order = .ok t ∧
            (v.read t).bytes = xs.flatMap Value.bytes ∧
            ∀ h k, ¬ v.Covers h k → (t.block h)[k]? = (p.store.block h)[k]?) := by
  intro p v hv sizes
  have hinside : v.Inside p.store := (Pool.sound_after script).views v hv
  constructor
  · intro hsizes
    have hparts := Width.parts_of_not_cuts hsizes
    exact ⟨by rw [split, hparts]; rfl, by rw [Value.split, width_read, hparts]; rfl⟩
  · intro hsizes
    obtain ⟨ws, hparts, rfl⟩ := Width.parts_of_cuts hsizes
    have htotal := Width.total_of_parts hparts
    have hroom : ∀ {s : Store}, v.Inside s → v.offset + Width.total ws ≤ (s.block v.handle).length := by
      intro s hs
      rw [htotal]
      exact hs
    have hcovers : ∀ h k, v.Covers h k ↔ ∃ u ∈ tile v.handle v.offset ws, u.Covers h k := by
      intro h k
      rw [covers_tile, htotal]
      rfl
    have hread : (tile v.handle v.offset ws).map (read p.store) = Value.cut (v.read p.store).magnitude ws := by
      rw [map_read_tile ws (hroom hinside), htotal, ← magnitude_read hinside]
    refine ⟨tile v.handle v.offset ws, by rw [split, hparts]; rfl, ?_, ?_, ?_, ?_, pairwise_tile _ ws _, hcovers, ?_⟩
    · rw [Value.split, width_read, hparts, hread]
      rfl
    · calc (tile v.handle v.offset ws).map (fun u => u.width.bytes)
          = ((tile v.handle v.offset ws).map width).map Width.bytes := List.map_map.symm
        _ = ws.map Width.bytes := by rw [map_width_tile]
    · intro i u hu
      rw [getElem?_tile] at hu
      obtain ⟨w, hw, rfl⟩ := Option.map_eq_some_iff.1 hu
      have hvalue := congrArg (·[i]?) hread
      simp only [List.getElem?_map, getElem?_tile, Value.getElem?_cut, hw, Option.map_some, Option.some.injEq] at hvalue
      rw [← List.map_take, ← Width.total_eq_sum]
      exact ⟨rfl, rfl, congrArg Value.magnitude hvalue⟩
    · intro u hu
      exact make_ok (inside_of_mem_tile (hroom hinside) hu)
    · intro xs hxs order horder
      obtain ⟨t, ht, hreads, hkept, hframe⟩ := writeAll_tile (hroom hinside) hxs horder
      have hinside' := hkept v hinside
      refine ⟨t, ht, ?_, ?_⟩
      · calc (v.read t).bytes
            = t.range v.handle v.offset (Width.total ws) := by rw [bytes_read hinside', htotal]
          _ = (tile v.handle v.offset ws).flatMap fun u => (u.read t).bytes :=
              (flatMap_bytes_tile ws (hroom hinside')).symm
          _ = ((tile v.handle v.offset ws).map (read t)).flatMap Value.bytes := by rw [List.flatMap_map]
          _ = xs.flatMap Value.bytes := by rw [hreads]
      · intro h k hk
        exact hframe h k fun u hu hcovered => hk ((hcovers h k).2 ⟨u, hu, hcovered⟩)

/-- Five bytes in the middle of a block, cut into parts of one, three and one bytes that are written from the
second part on; and sizes with an empty part, and sizes that are too large together. -/
theorem split_agrees_middle :
    let script : List Access := [.allocate 8, .writeBytes 0 0 [1, 2, 3, 4, 5, 6, 7, 8], .view 0 2 5]
    let p := Pool.empty.after script
    let three : Width := ⟨3, by decide, by decide⟩
    let v : View := ⟨⟨0⟩, 2, ⟨5, by decide, by decide⟩⟩
    let a : View := ⟨⟨0⟩, 2, .byte⟩
    let b : View := ⟨⟨0⟩, 3, three⟩
    let c : View := ⟨⟨0⟩, 6, .byte⟩
    v ∈ p.views ∧
      v.split [1, 0, 4] = .error (.invalidSplit 5 [1, 0, 4]) ∧
      (v.read p.store).split [3, 3] = .error (.invalidSplit 5 [3, 3]) ∧
      v.split [1, 3, 1] = .ok [a, b, c] ∧
      (v.read p.store).split [1, 3, 1] = .ok [a.read p.store, b.read p.store, c.read p.store] ∧
      ∃ t, writeAll p.store [(b, .ofInt (-2) three), (c, .ofInt 0xcc .byte), (a, .ofInt 0xaa .byte)] = .ok t ∧
        (v.read t).bytes = [0xaa, 0xfe, 0xff, 0xff, 0xcc] ∧ (t.block ⟨0⟩)[7]? = some 8 := by
  intro script p three v a b c
  have hv : v ∈ p.views := by decide +kernel
  have hagrees := split_agrees script v hv
  obtain ⟨us, hsplit, hvalue, -, -, -, -, -, hwrites⟩ := (hagrees [1, 3, 1]).2 (by decide)
  obtain rfl : [a, b, c] = us := Except.ok.inj hsplit
  obtain ⟨t, ht, hbytes, hframe⟩ := hwrites [.ofInt 0xaa .byte, .ofInt (-2) three, .ofInt 0xcc .byte] rfl
    [(b, .ofInt (-2) three), (c, .ofInt 0xcc .byte), (a, .ofInt 0xaa .byte)] (by decide +kernel)
  refine ⟨hv, ((hagrees [1, 0, 4]).1 (by decide)).1, ((hagrees [3, 3]).1 (by decide)).2, hsplit, hvalue, t, ht,
    ?_, ?_⟩
  · rw [hbytes]
    decide +kernel
  · have hlast : ¬ v.Covers ⟨0⟩ 7 := fun h => absurd h.2.2 (by decide)
    rw [hframe ⟨0⟩ 7 hlast]
    decide +kernel

end View
end Octet
