import Octet.Proofs.LittleEndian
import Octet.View

/-!
# Reading what was written

What a write through a view does to the store, said through reads. A written view reads the value
that was written, a view without a common byte reads what it read before, and no block changes its
length. Where a view covers two others, `View.magnitude_read_pair` joins their readings, so nothing
below has to look at single bytes.

* `View.read_patch_self`: the written view reads the written value.
* `View.read_patch_of_disjoint`: **a view that shares no byte with the written one is unchanged.**
* `View.mem_tile`, `View.pairwise_tile`, `View.exists_mem_tile`: consecutive views stay in their range, share
  no byte and leave none out.
-/

namespace Octet

namespace Store

variable {s : Store} {h h' : Handle} {offset : Nat} {data : List UInt8}

/-- The block that a handle names exists. -/
def Has (s : Store) (h : Handle) : Prop :=
  h.index < s.blocks.size

theorem has_patch : (s.patch h offset data).Has h' ↔ s.Has h' := by
  simp [Has, patch]

theorem block_patch_self (hs : s.Has h) : (s.patch h offset data).block h = splice (s.block h) offset data := by
  unfold Has at hs
  simp [block, patch, Array.getD, hs, Array.getElem_modify]

theorem block_patch_of_ne (hne : h' ≠ h) : (s.patch h offset data).block h' = s.block h' := by
  have hi : h.index ≠ h'.index := by
    intro hi
    cases h
    cases h'
    simp_all
  unfold block patch Array.getD
  simp only [Array.size_modify]
  split
  · simp [Array.getElem_modify, hi]
  · rfl

theorem block_alloc_of_has (hs : s.Has h) (bytes : List UInt8) : (s.alloc bytes).2.block h = s.block h := by
  unfold Has at hs
  have hs' : h.index < s.blocks.size + 1 := by omega
  simp [block, alloc, Array.getD, hs, hs', Array.getElem_push]

/-- A missing block has no bytes. -/
theorem block_of_not_has (hs : ¬ s.Has h) : s.block h = [] := by
  unfold Has at hs
  simp [block, Array.getD, hs]

/-- A block without bytes may be missing; a block with bytes is there. -/
theorem has_of_length_pos (hl : 0 < (s.block h).length) : s.Has h := by
  apply Classical.byContradiction
  intro hs
  rw [block_of_not_has hs] at hl
  exact absurd hl (by decide)

/-- **No block changes its length.** -/
theorem length_block_patch (hr : offset + data.length ≤ (s.block h).length) (h' : Handle) :
    ((s.patch h offset data).block h').length = (s.block h').length := by
  by_cases hne : h' = h
  · subst hne
    by_cases hs : s.Has h'
    · rw [block_patch_self hs, length_splice hr]
    · -- a missing block has no bytes, before and after
      rw [block_of_not_has hs, block_of_not_has (mt has_patch.1 hs)]
  · rw [block_patch_of_ne hne]

/-- A range is the join of its two parts. -/
theorem range_add (s : Store) (h : Handle) (offset m n : Nat) :
    s.range h offset (m + n) = s.range h offset m ++ s.range h (offset + m) n := by
  unfold range
  rw [List.take_add, List.drop_drop]

theorem length_range {width : Nat} (hr : offset + width ≤ (s.block h).length) :
    (s.range h offset width).length = width := by
  unfold range
  rw [List.length_take, List.length_drop]
  omega

/-- The replaced range holds the new bytes. -/
theorem range_patch_self (hs : s.Has h) (hr : offset + data.length ≤ (s.block h).length) :
    (s.patch h offset data).range h offset data.length = data := by
  have ht : ((s.block h).take offset).length = offset := by
    rw [List.length_take]
    omega
  unfold range
  rw [block_patch_self hs, splice, List.append_assoc, List.drop_left' ht, List.take_left' rfl]

/-- A range before or after the replaced one is unchanged. -/
theorem range_patch_of_disjoint {start width : Nat} (hr : offset + data.length ≤ (s.block h).length)
    (hd : h' ≠ h ∨ start + width ≤ offset ∨ offset + data.length ≤ start) :
    (s.patch h offset data).range h' start width = s.range h' start width := by
  by_cases hne : h' = h
  · subst hne
    by_cases hs : s.Has h'
    · have hd := hd.resolve_left (fun hne => hne rfl)
      unfold range
      rw [block_patch_self hs]
      -- byte by byte: before the new bytes nothing moves, behind them the indices shift alike
      apply List.ext_getElem?
      intro i
      simp only [splice, List.getElem?_take, List.getElem?_drop]
      split
      · simp only [List.getElem?_append, List.length_append, List.length_take, List.getElem?_take,
          List.getElem?_drop]
        rcases hd with hd | hd
        · rw [if_pos (by omega), if_pos (by omega), if_pos (by omega)]
        · rw [if_neg (by omega)]
          congr 1
          omega
      · rfl
    · unfold range
      rw [block_of_not_has hs, block_of_not_has (mt has_patch.1 hs)]
  · unfold range
    rw [block_patch_of_ne hne]

end Store

namespace View

variable {s : Store} {v w : View} {x : Value}

@[simp] theorem width_read (s : Store) (v : View) : (v.read s).width = v.width := rfl

/-- Two views share no byte if they are in different blocks or one ends before the other starts. -/
theorem overlaps_eq_false_iff :
    v.overlaps w = false ↔ v.handle ≠ w.handle ∨ w.stop ≤ v.offset ∨ v.stop ≤ w.offset := by
  rw [← Bool.not_eq_true]
  simp only [overlaps, Bool.and_eq_true, beq_iff_eq, decide_eq_true_eq]
  by_cases hh : v.handle = w.handle
  · simp only [hh, true_and, ne_eq, not_true, false_or]
    omega
  · simp [hh]

/-- A view that lies inside its block names a block that exists. -/
theorem Inside.has (hv : v.Inside s) : s.Has v.handle := by
  apply Store.has_of_length_pos
  have := v.width.pos
  unfold Inside stop at hv
  omega

theorem Inside.length_range (hv : v.Inside s) : (s.range v.handle v.offset v.width.bytes).length = v.width.bytes :=
  Store.length_range hv

/-- The magnitude of a reading is the number of the bytes, unreduced. -/
theorem magnitude_read (hv : v.Inside s) :
    (v.read s).magnitude = Bytes.toNat (s.range v.handle v.offset v.width.bytes) := by
  have hlt := Bytes.toNat_lt (s.range v.handle v.offset v.width.bytes)
  rw [hv.length_range] at hlt
  exact Nat.mod_eq_of_lt hlt

/-- **A view of `m + n` bytes reads its first `m` bytes and its last `n` bytes, the latter shifted.** -/
theorem magnitude_read_pair {h : Handle} {offset : Nat} {m n mn : Width} (hmn : mn.bytes = m.bytes + n.bytes)
    (hv : Inside s ⟨h, offset, mn⟩) :
    (read s ⟨h, offset, mn⟩).magnitude =
      (read s ⟨h, offset, m⟩).magnitude + m.modulus * (read s ⟨h, offset + m.bytes, n⟩).magnitude := by
  -- both parts lie inside the block because the whole does
  have hm : Inside s ⟨h, offset, m⟩ := by
    unfold Inside stop at hv ⊢
    simp only at hv ⊢
    omega
  have hn : Inside s ⟨h, offset + m.bytes, n⟩ := by
    unfold Inside stop at hv ⊢
    simp only at hv ⊢
    omega
  rw [magnitude_read hv, magnitude_read hm, magnitude_read hn]
  simp only [hmn]
  rw [Store.range_add, Bytes.toNat_append, hm.length_range]
  rfl

/-- The bytes of a value of the view's width fit into the view. -/
theorem Inside.fits (hv : v.Inside s) (hx : x.width = v.width) :
    v.offset + x.bytes.length ≤ (s.block v.handle).length := by
  rw [Value.length_bytes, hx]
  exact hv

/-- The written view reads the written value. -/
theorem read_patch_self (hv : v.Inside s) (hx : x.width = v.width) :
    v.read (s.patch v.handle v.offset x.bytes) = x := by
  have hr := Store.range_patch_self hv.has (hv.fits hx)
  rw [Value.length_bytes, hx] at hr
  unfold read
  rw [hr, Value.toNat_bytes, ← hx, Value.ofNat_magnitude]

/-- **A view that shares no byte with the written one is unchanged.** -/
theorem read_patch_of_disjoint (hv : v.Inside s) (hx : x.width = v.width) (hd : v.overlaps w = false) :
    w.read (s.patch v.handle v.offset x.bytes) = w.read s := by
  rw [overlaps_eq_false_iff] at hd
  have hd' : w.handle ≠ v.handle ∨ w.stop ≤ v.offset ∨ v.offset + x.bytes.length ≤ w.offset := by
    rw [Value.length_bytes, hx]
    exact hd.imp_left Ne.symm
  unfold read
  rw [Store.range_patch_of_disjoint (hv.fits hx) hd']

/-- A new block leaves a view inside its block. -/
theorem Inside.alloc (hw : w.Inside s) (bytes : List UInt8) : w.Inside (s.alloc bytes).2 := by
  have hh := hw.has
  unfold Inside at hw ⊢
  rw [Store.block_alloc_of_has hh]
  exact hw

/-- Consecutive views lie between the first offset and the end of the last one. -/
theorem mem_tile {h : Handle} (ws : List Width) : ∀ {offset : Nat} {u : View}, u ∈ tile h offset ws →
    u.handle = h ∧ offset ≤ u.offset ∧ u.stop ≤ offset + Width.total ws := by
  induction ws with
  | nil => intro offset u hu; cases hu
  | cons w ws ih =>
    intro offset u hu
    rw [Width.total]
    rcases List.mem_cons.1 hu with rfl | hu
    · exact ⟨rfl, Nat.le_refl _, by unfold stop; simp only; omega⟩
    · obtain ⟨hh, hlow, hhigh⟩ := ih hu
      exact ⟨hh, by omega, by omega⟩

/-- **Consecutive views share no byte.** -/
theorem pairwise_tile (h : Handle) (ws : List Width) : ∀ offset,
    (tile h offset ws).Pairwise fun a b => a.overlaps b = false := by
  induction ws with
  | nil => intro offset; exact List.Pairwise.nil
  | cons w ws ih =>
    intro offset
    refine List.Pairwise.cons ?_ (ih _)
    intro u hu
    -- the first view ends where the others start
    have hlow := (mem_tile ws hu).2.1
    exact overlaps_eq_false_iff.2 (Or.inr (Or.inr hlow))

/-- **Consecutive views leave no byte out.** -/
theorem exists_mem_tile (h : Handle) (ws : List Width) : ∀ {offset k : Nat}, offset ≤ k →
    k < offset + Width.total ws → ∃ u ∈ tile h offset ws, u.offset ≤ k ∧ k < u.stop := by
  induction ws with
  | nil =>
    intro offset k hlow hhigh
    rw [Width.total] at hhigh
    omega
  | cons w ws ih =>
    intro offset k hlow hhigh
    rw [Width.total] at hhigh
    rcases Nat.lt_or_ge k (offset + w.bytes) with hfirst | hrest
    · exact ⟨_, List.mem_cons_self, hlow, hfirst⟩
    · obtain ⟨u, hu, hk⟩ := ih hrest (by omega)
      exact ⟨u, List.mem_cons_of_mem _ hu, hk⟩

end View
end Octet
