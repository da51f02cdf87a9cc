import Octet.Machine
import Octet.Proofs.Execution

/-!
# Where a loaded machine keeps its names

Loading makes two blocks. The first holds the variables one after the other in the order of their
declaration, the second the registers. Which view a name gets is a function of the program and of the
two handles, `Program.place`, and it does not depend on what the variables hold.

* `Scope.load_ok`: **what a scope is that has been loaded**, and which bytes are in its blocks.
* `Scope.Loaded.lookup?`: a loaded name is where the program places it.
* `find?_layout_disjoint`: different variables share no byte.
* `read_layout`: a loaded variable reads as its declaration says.
-/

namespace Octet

/-- The names of some declarations and their views, from `offset` of a block on. -/
def layout (h : Handle) (offset : Nat) : List Declaration → List (String × View)
  | [] => []
  | d :: ds => (d.name, ⟨h, offset, d.width⟩) :: layout h (offset + d.width.bytes) ds

/-- The names of the registers and their views of a block. -/
def Register.entries (h : Handle) : List (String × View) :=
  Register.all.map fun r => (r.name, r.view h)

/-- The bytes that some declarations start with. -/
def image (ds : List Declaration) : List UInt8 :=
  ds.flatMap fun d => d.value.bytes

/-- The view of a name in a program that has just been loaded. -/
def Program.place (p : Program) (data registers : Handle) (name : String) : Option View :=
  match Register.ofName? name with
  | some r => some (r.view registers)
  | none => Scope.find? name (layout data 0 p.declarations)

/-- The width of a name in a program. -/
def Program.width? (p : Program) (name : String) : Option Width :=
  match Register.ofName? name with
  | some r => some r.width
  | none => (p.declarations.find? fun d => d.name == name).map Declaration.width

/-- The world after a variable has got its first value. -/
def World.withVariable (w : World) (h : Handle) (offset : Nat) (d : Declaration) : World where
  store := w.store.patch h offset d.value.bytes
  log := w.log.push (.bound d.name offset d.width.bytes d.value)

namespace Store

variable {s : Store} {h : Handle}

/-- A store is its blocks. -/
theorem ext_block {t : Store} (hsize : s.blocks.size = t.blocks.size)
    (hblock : ∀ h, s.Has h → s.block h = t.block h) : s = t := by
  cases s
  cases t
  congr 1
  apply Array.ext
  · exact hsize
  · intro i h1 h2
    have hi := hblock ⟨i⟩ h1
    simp only [block, Array.getD] at hi
    rwa [dif_pos h1, dif_pos h2] at hi

@[simp] theorem size_patch (s : Store) (h : Handle) (offset : Nat) (data : List UInt8) :
    (s.patch h offset data).blocks.size = s.blocks.size := by
  simp [patch]

theorem splice_splice {block as : List UInt8} {offset : Nat} (hr : offset ≤ block.length) (bs : List UInt8) :
    splice (splice block offset as) (offset + as.length) bs = splice block offset (as ++ bs) := by
  have ht : (block.take offset).length = offset := by rw [List.length_take]; omega
  have hta : (block.take offset ++ as).length = offset + as.length := by rw [List.length_append, ht]
  unfold splice
  rw [List.take_left' hta, ← List.drop_drop, List.drop_left' hta, List.drop_drop, List.length_append,
    ← Nat.add_assoc, List.append_assoc (List.take offset block)]

/-- Of two new blocks, the first one. -/
theorem block_push_first (blocks : Array (List UInt8)) (as bs : List UInt8) :
    block ⟨(blocks.push as).push bs⟩ ⟨blocks.size⟩ = as := by
  have hne : blocks.size ≠ (blocks.push as).size := by rw [Array.size_push]; omega
  unfold block
  rw [Array.getD_eq_getD_getElem?, Array.getElem?_push, if_neg hne, Array.getElem?_push, if_pos rfl]
  rfl

/-- Of two new blocks, the second one. -/
theorem block_push_second (blocks : Array (List UInt8)) (as bs : List UInt8) :
    block ⟨(blocks.push as).push bs⟩ ⟨blocks.size + 1⟩ = bs := by
  have heq : blocks.size + 1 = (blocks.push as).size := by rw [Array.size_push]
  unfold block
  rw [Array.getD_eq_getD_getElem?, Array.getElem?_push, if_pos heq]
  rfl

theorem patch_nil (s : Store) (h : Handle) (offset : Nat) : s.patch h offset [] = s := by
  apply ext_block (size_patch s h offset [])
  intro h' hs
  rw [has_patch] at hs
  by_cases hne : h' = h
  · subst hne
    rw [block_patch_self hs]
    simp [splice]
  · exact block_patch_of_ne hne

/-- Bytes that belong after one another can be put one after the other. -/
theorem patch_patch {offset : Nat} {as : List UInt8} (hr : offset ≤ (s.block h).length) (bs : List UInt8) :
    (s.patch h offset as).patch h (offset + as.length) bs = s.patch h offset (as ++ bs) := by
  apply ext_block (by simp only [size_patch])
  intro h' hs
  rw [has_patch, has_patch] at hs
  by_cases hne : h' = h
  · subst hne
    rw [block_patch_self (has_patch.2 hs), block_patch_self hs, block_patch_self hs, splice_splice hr]
  · rw [block_patch_of_ne hne, block_patch_of_ne hne, block_patch_of_ne hne]

end Store

/-- The first value of a variable leaves room for those after it. -/
theorem World.room_withVariable {w : World} {h : Handle} {offset rest : Nat} {d : Declaration}
    (hw : d.value.width = d.width) (hroom : offset + (d.width.bytes + rest) ≤ (w.store.block h).length) :
    offset + d.width.bytes + rest ≤ ((w.withVariable h offset d).store.block h).length := by
  have hfit : offset + d.value.bytes.length ≤ (w.store.block h).length := by
    rw [Value.length_bytes, hw]
    omega
  show _ ≤ ((w.store.patch h offset d.value.bytes).block h).length
  rw [Store.length_block_patch hfit]
  omega

/-- A range inside its block can be viewed. -/
theorem View.make_ok {s : Store} {h : Handle} {offset : Nat} {w : Width}
    (hr : offset + w.bytes ≤ (s.block h).length) : View.make s h offset w.bytes = .ok ⟨h, offset, w⟩ := by
  unfold View.make Store.checkRange
  rw [Width.ofNat_bytes, if_pos hr]
  rfl

namespace Scope

theorem find?_append (name : String) (as bs : List (String × View)) :
    find? name (as ++ bs) = (find? name as).or (find? name bs) := by
  induction as with
  | nil => simp [find?]
  | cons a as ih =>
    simp only [List.cons_append, find?, ih]
    split <;> rfl

theorem find?_eq_none_iff {name : String} {entries : List (String × View)} :
    find? name entries = none ↔ ∀ entry ∈ entries, entry.1 ≠ name := by
  induction entries with
  | nil => simp [find?]
  | cons entry rest ih =>
    simp only [find?, List.mem_cons, forall_eq_or_imp, ← ih]
    split <;> simp_all

theorem mem_of_find? {name : String} {v : View} {entries : List (String × View)}
    (hv : find? name entries = some v) : (name, v) ∈ entries := by
  induction entries with
  | nil => cases hv
  | cons entry rest ih =>
    rw [find?] at hv
    split at hv
    · rename_i hn
      cases hv
      rw [← hn]
      exact List.mem_cons_self
    · exact List.mem_cons_of_mem _ (ih hv)

/-- A new name comes last. -/
theorem put_of_find?_eq_none {name : String} {v : View} {entries : List (String × View)}
    (hn : find? name entries = none) : put name v entries = entries ++ [(name, v)] := by
  induction entries with
  | nil => rfl
  | cons entry rest ih =>
    rw [find?] at hn
    split at hn
    · cases hn
    · rename_i hne
      rw [put, if_neg hne, ih hn, List.cons_append]

theorem bindNew_ok {scope scope' : Scope} {name : String} {v : View}
    (hb : scope.bindNew name v = .ok scope') :
    scope.lookup? name = none ∧ scope' = { scope with entries := scope.entries ++ [(name, v)] } := by
  unfold bindNew at hb
  split at hb
  · cases hb
  · rename_i hn
    have hn' : scope.lookup? name = none := by simpa using hn
    cases hb
    exact ⟨hn', by unfold bind; rw [put_of_find?_eq_none hn']⟩

/-- One variable gets its place and its first value. -/
theorem run_bindVariables_cons (scope : Scope) (offset : Nat) (d : Declaration) (ds : List Declaration)
    (w : World) (hr : offset + d.width.bytes ≤ (w.store.block scope.data).length) :
    (bindVariables scope offset (d :: ds)).run w =
      if d.value.width = d.width then
        match scope.bindNew d.name ⟨scope.data, offset, d.width⟩ with
        | .ok next =>
          (bindVariables { next with declared := next.declared ++ [d.name] } (offset + d.width.bytes) ds).run
            (w.withVariable scope.data offset d)
        | .error e => .error e (w.withVariable scope.data offset d)
      else .error (.widthMismatch d.width.bytes d.value.width.bytes) w := by
  rw [bindVariables]
  simp only [EStateM.run_bind, Action.run_view, View.make_ok hr, Action.run_write, View.write]
  by_cases hw : d.value.width = d.width
  · simp only [hw, if_true, Action.run_emit]
    cases scope.bindNew d.name ⟨scope.data, offset, d.width⟩ <;> rfl
  · simp only [hw, if_false]

/-- **What binding the variables comes to**, if it succeeds and there is room for them. -/
theorem bindVariables_ok (ds : List Declaration) : ∀ scope offset w scope' w',
    (bindVariables scope offset ds).run w = .ok scope' w' →
    offset + Width.total (ds.map Declaration.width) ≤ (w.store.block scope.data).length →
    scope' = { scope with
      entries := scope.entries ++ layout scope.data offset ds
      declared := scope.declared ++ ds.map Declaration.name } ∧
    (∀ d ∈ ds, scope.lookup? d.name = none) ∧ (ds.map Declaration.name).Nodup ∧
    (∀ d ∈ ds, d.value.width = d.width) ∧ w'.store = w.store.patch scope.data offset (image ds) := by
  induction ds with
  | nil =>
    intro scope offset w scope' w' h _
    cases h
    simp [layout, image, Store.patch_nil]
  | cons d ds ih =>
    intro scope offset w scope' w' h hroom
    simp only [List.map_cons, Width.total] at hroom
    rw [run_bindVariables_cons scope offset d ds w (by omega)] at h
    by_cases hw : d.value.width = d.width
    · rw [if_pos hw] at h
      cases hb : scope.bindNew d.name ⟨scope.data, offset, d.width⟩ with
      | error e => rw [hb] at h; cases h
      | ok scope₁ =>
        rw [hb] at h
        obtain ⟨hfree, rfl⟩ := bindNew_ok hb
        obtain ⟨hs, hfrees, hnodup, hws, hstore⟩ := ih _ _ _ _ _ h (World.room_withVariable hw hroom)
        -- the names that follow differ from `d.name`, which is bound by now
        have hlookup : ∀ d' ∈ ds, scope.lookup? d'.name = none ∧ d.name ≠ d'.name := by
          intro d' hd'
          have := hfrees d' hd'
          simp only [lookup?, find?_append, Option.or_eq_none_iff, find?] at this
          refine ⟨this.1, ?_⟩
          intro hn
          simp [hn] at this
        refine ⟨?_, ?_, ?_, ?_, ?_⟩
        · rw [hs]
          simp [layout]
        · intro d' hd'
          rcases List.mem_cons.1 hd' with rfl | hd'
          · exact hfree
          · exact (hlookup d' hd').1
        · rw [List.map_cons, List.nodup_cons]
          refine ⟨?_, hnodup⟩
          intro hmem
          obtain ⟨d', hd', hn⟩ := List.mem_map.1 hmem
          exact (hlookup d' hd').2 hn.symm
        · intro d' hd'
          rcases List.mem_cons.1 hd' with rfl | hd'
          · exact hw
          · exact hws d' hd'
        · rw [hstore]
          have hlen : d.width.bytes = d.value.bytes.length := by rw [Value.length_bytes, hw]
          simp only [World.withVariable, hlen]
          rw [Store.patch_patch (by omega)]
          rfl
    · rw [if_neg hw] at h; cases h

/-- Registers are bound if their names are free. -/
theorem bindRegisters_ok (rs : List Register) : ∀ scope scope', bindRegisters scope rs = .ok scope' →
    scope' = { scope with entries := scope.entries ++ rs.map fun r => (r.name, r.view scope.registers) } ∧
      ∀ r ∈ rs, scope.lookup? r.name = none := by
  induction rs with
  | nil => intro scope scope' h; cases h; simp
  | cons r rs ih =>
    intro scope scope' h
    rw [bindRegisters] at h
    cases hb : scope.bindNew r.name (r.view scope.registers) with
    | error e => rw [hb] at h; cases h
    | ok scope₁ =>
      rw [hb, ok_bind] at h
      obtain ⟨hfree, rfl⟩ := bindNew_ok hb
      obtain ⟨hs, hfrees⟩ := ih _ _ h
      refine ⟨by rw [hs]; simp, ?_⟩
      intro r' hr'
      rcases List.mem_cons.1 hr' with rfl | hr'
      · exact hfree
      · have := hfrees r' hr'
        simp only [lookup?, find?_append, Option.or_eq_none_iff] at this
        exact this.1

/-- A scope that some declarations have been loaded into, and the store with its two blocks. -/
structure Loaded (ds : List Declaration) (before : Store) (scope : Scope) (after : Store) : Prop where
  data : scope.data = ⟨before.blocks.size⟩
  registers : scope.registers = ⟨before.blocks.size + 1⟩
  entries : scope.entries = layout scope.data 0 ds ++ Register.entries scope.registers
  declared : scope.declared = ds.map Declaration.name
  nodup : (ds.map Declaration.name).Nodup
  free : ∀ d ∈ ds, Register.ofName? d.name = none
  fits : ∀ d ∈ ds, d.value.width = d.width
  store : after.blocks = (before.blocks.push (image ds)).push (List.replicate Register.blockSize 0)

end Scope

theorem Register.mem_all (r : Register) : r ∈ Register.all := by
  rcases r with ⟨bank, part⟩
  cases bank <;> cases part <;> decide

theorem Register.name_of_ofName? {name : String} {r : Register} (h : Register.ofName? name = some r) :
    r.name = name := by
  have := List.find?_some h
  simpa using this

theorem Register.ne_name_of_ofName? {name : String} (h : Register.ofName? name = none) (r : Register) :
    name ≠ r.name := by
  rintro rfl
  rw [Register.ofName?_name] at h
  cases h

theorem length_image {ds : List Declaration} (hfits : ∀ d ∈ ds, d.value.width = d.width) :
    (image ds).length = Width.total (ds.map Declaration.width) := by
  induction ds with
  | nil => rfl
  | cons d ds ih =>
    have hd := hfits d List.mem_cons_self
    have htl := ih fun d' hd' => hfits d' (List.mem_cons_of_mem _ hd')
    unfold image at htl ⊢
    rw [List.flatMap_cons, List.length_append, htl, Value.length_bytes, hd]
    rfl

theorem mem_layout {h : Handle} {ds : List Declaration} {entry : String × View} :
    ∀ {offset : Nat}, entry ∈ layout h offset ds → ∃ d ∈ ds, entry.1 = d.name := by
  induction ds with
  | nil => intro offset hm; cases hm
  | cons d ds ih =>
    intro offset hm
    rcases List.mem_cons.1 hm with rfl | hm
    · exact ⟨d, List.mem_cons_self, rfl⟩
    · obtain ⟨d', hd', hn⟩ := ih hm
      exact ⟨d', List.mem_cons_of_mem _ hd', hn⟩

theorem exists_mem_layout (h : Handle) (offset : Nat) {ds : List Declaration} {d : Declaration} (hd : d ∈ ds) :
    ∃ v, (d.name, v) ∈ layout h offset ds := by
  induction ds generalizing offset with
  | nil => cases hd
  | cons d' ds ih =>
    rcases List.mem_cons.1 hd with rfl | hd
    · exact ⟨_, List.mem_cons_self⟩
    · obtain ⟨v, hv⟩ := ih (offset + d'.width.bytes) hd
      exact ⟨v, List.mem_cons_of_mem _ hv⟩

namespace Scope

/-- The store with two new blocks of zeros, for so many bytes of variables and for the registers. -/
def blank (s : Store) (size : Nat) : Store :=
  ⟨(s.blocks.push (List.replicate size 0)).push (List.replicate Register.blockSize 0)⟩

theorem run_load (ds : List Declaration) (w : World) :
    (load ds).run w =
      match (bindVariables ⟨[], [], ⟨w.store.blocks.size⟩, ⟨w.store.blocks.size + 1⟩⟩ 0 ds).run
          { w with store := blank w.store (Width.total (ds.map Declaration.width)) } with
      | .ok scope w₁ =>
        match bindRegisters scope Register.all with
        | .ok scope => .ok scope w₁
        | .error e => .error e w₁
      | .error e w₁ => .error e w₁ := by
  have hsize : (w.store.blocks.push (List.replicate (Width.total (ds.map Declaration.width)) 0)).size =
      w.store.blocks.size + 1 := by simp
  unfold load
  simp only [EStateM.run_bind, Action.run_allocZero, Store.allocZero, Store.alloc, hsize]
  unfold blank
  split
  case h_1 scope w₁ hvars =>
    rw [hvars]
    simp only
    cases bindRegisters scope Register.all <;> rfl
  case h_2 e w₁ hvars => rw [hvars]

theorem room_blank (s : Store) (size : Nat) : 0 + size ≤ ((blank s size).block ⟨s.blocks.size⟩).length := by
  unfold blank
  rw [Store.block_push_first, List.length_replicate]
  omega

/-- Bytes for all variables can be put in place of the zeros. -/
theorem patch_blank (s : Store) (bytes : List UInt8) :
    (blank s bytes.length).patch ⟨s.blocks.size⟩ 0 bytes =
      ⟨(s.blocks.push bytes).push (List.replicate Register.blockSize 0)⟩ := by
  apply Store.ext_block
  · simp [blank]
  · intro h hs
    rw [Store.has_patch] at hs
    by_cases hh : h = ⟨s.blocks.size⟩
    · subst hh
      rw [Store.block_patch_self hs, Store.block_push_first]
      unfold blank
      rw [Store.block_push_first]
      simp [Store.splice]
    · have hi : h.index ≠ s.blocks.size := fun hi => hh (by cases h; cases hi; rfl)
      rw [Store.block_patch_of_ne hh]
      simp [blank, Store.block, Array.getD_eq_getD_getElem?, Array.getElem?_push, hi]

/-- **What a loaded scope is.** -/
theorem load_ok {ds : List Declaration} {w w' : World} {scope : Scope}
    (h : (load ds).run w = .ok scope w') : Loaded ds w.store scope w'.store := by
  rw [run_load] at h
  split at h
  case h_2 => cases h
  case h_1 scope₁ w₁ hvars =>
    split at h
    case h_2 => cases h
    case h_1 scope₂ hregs =>
      cases h
      -- the zeros make room for every variable
      obtain ⟨hs, -, hnodup, hfits, hstore⟩ := bindVariables_ok ds _ _ _ _ _ hvars (room_blank w.store _)
      obtain ⟨rfl, hfree⟩ := bindRegisters_ok _ _ _ hregs
      subst hs
      refine ⟨rfl, rfl, rfl, by simp, hnodup, ?_, hfits, ?_⟩
      · intro d hd
        cases hr : Register.ofName? d.name with
        | none => rfl
        | some r =>
          -- the register was bound after the variables, so its name was free
          have hlookup := hfree r r.mem_all
          rw [Register.name_of_ofName? hr] at hlookup
          obtain ⟨v, hv⟩ := exists_mem_layout ⟨w.store.blocks.size⟩ 0 hd
          exact absurd rfl (find?_eq_none_iff.1 hlookup _ (by simpa using hv))
      · rw [hstore, ← length_image hfits]
        exact congrArg Store.blocks (patch_blank w.store (image ds))

theorem find?_registers (h : Handle) (name : String) (rs : List Register) :
    find? name (rs.map fun r => (r.name, r.view h)) =
      (rs.find? fun r => r.name == name).map (Register.view h) := by
  induction rs with
  | nil => rfl
  | cons r rs ih =>
    rw [List.map_cons, find?, List.find?_cons, ih]
    by_cases hn : r.name = name
    · simp [hn]
    · simp [hn, beq_eq_false_iff_ne.2 hn]

theorem find?_entries (h : Handle) (name : String) :
    find? name (Register.entries h) = (Register.ofName? name).map (Register.view h) :=
  find?_registers h name Register.all

/-- The variables and the registers have different blocks. -/
theorem Loaded.data_ne_registers {ds : List Declaration} {before after : Store} {scope : Scope}
    (hl : Loaded ds before scope after) : scope.data ≠ scope.registers := by
  rw [hl.data, hl.registers]
  simp

theorem Loaded.block_data {ds : List Declaration} {before after : Store} {scope : Scope}
    (hl : Loaded ds before scope after) : after.block scope.data = image ds := by
  have hafter : after = ⟨(before.blocks.push (image ds)).push (List.replicate Register.blockSize 0)⟩ := by
    rw [← hl.store]
  rw [hl.data, hafter, Store.block_push_first]

theorem Loaded.block_registers {ds : List Declaration} {before after : Store} {scope : Scope}
    (hl : Loaded ds before scope after) : after.block scope.registers = List.replicate Register.blockSize 0 := by
  have hafter : after = ⟨(before.blocks.push (image ds)).push (List.replicate Register.blockSize 0)⟩ := by
    rw [← hl.store]
  rw [hl.registers, hafter, Store.block_push_second]

/-- **A loaded name is where the program places it.** -/
theorem Loaded.lookup? {p : Program} {before after : Store} {scope : Scope}
    (hl : Loaded p.declarations before scope after) (name : String) :
    scope.lookup? name = p.place scope.data scope.registers name := by
  unfold Scope.lookup? Program.place
  rw [hl.entries, find?_append, find?_entries]
  cases hr : Register.ofName? name with
  | none => simp
  | some r =>
    have hnone : find? name (layout scope.data 0 p.declarations) = none := by
      rw [find?_eq_none_iff]
      intro entry hm hn
      obtain ⟨d, hd, hdn⟩ := mem_layout hm
      have := hl.free d hd
      rw [← hdn, hn, hr] at this
      cases this
    simp [hnone]

end Scope

section Place

open Scope

variable {h : Handle} {name : String} {v : View}

theorem map_width_find?_layout (h : Handle) (name : String) (ds : List Declaration) : ∀ offset,
    (find? name (layout h offset ds)).map View.width =
      (ds.find? fun d => d.name == name).map Declaration.width := by
  induction ds with
  | nil => intro offset; rfl
  | cons d ds ih =>
    intro offset
    rw [layout, find?, List.find?_cons]
    by_cases hn : d.name = name
    · simp [hn]
    · simp [hn, beq_eq_false_iff_ne.2 hn, ih]

/-- If no name is declared twice, a declaration is found by its name. -/
theorem find?_declaration {ds : List Declaration} (hnodup : (ds.map Declaration.name).Nodup) {d : Declaration}
    (hd : d ∈ ds) : (ds.find? fun d' => d'.name == d.name) = some d := by
  induction ds with
  | nil => cases hd
  | cons d' ds ih =>
    rw [List.map_cons, List.nodup_cons] at hnodup
    rw [List.find?_cons]
    rcases List.mem_cons.1 hd with rfl | hd
    · simp
    · have hne : d'.name ≠ d.name := fun hn => hnodup.1 (hn ▸ List.mem_map_of_mem hd)
      rw [beq_eq_false_iff_ne.2 hne]
      exact ih hnodup.2 hd

/-- The views of variables are consecutive. -/
theorem map_snd_layout (h : Handle) (ds : List Declaration) : ∀ offset,
    (layout h offset ds).map Prod.snd = View.tile h offset (ds.map Declaration.width) := by
  induction ds with
  | nil => intro offset; rfl
  | cons d ds ih => intro offset; rw [layout, List.map_cons, List.map_cons, View.tile, ih]

/-- A variable lies in the block of the variables, between where the layout starts and ends. -/
theorem mem_layout_bounds {ds : List Declaration} {entry : String × View} {offset : Nat}
    (hm : entry ∈ layout h offset ds) :
    entry.2.handle = h ∧ offset ≤ entry.2.offset ∧
      entry.2.stop ≤ offset + Width.total (ds.map Declaration.width) := by
  have hview : entry.2 ∈ View.tile h offset (ds.map Declaration.width) := by
    rw [← map_snd_layout]
    exact List.mem_map_of_mem hm
  exact View.mem_tile _ hview

theorem find?_layout_bounds {ds : List Declaration} {offset : Nat}
    (hv : find? name (layout h offset ds) = some v) :
    v.handle = h ∧ offset ≤ v.offset ∧ v.stop ≤ offset + Width.total (ds.map Declaration.width) :=
  mem_layout_bounds (mem_of_find? hv)

/-- Where a variable is in its block does not depend on the block. -/
theorem find?_layout_handle (h k : Handle) (name : String) (ds : List Declaration) : ∀ offset,
    find? name (layout k offset ds) =
      (find? name (layout h offset ds)).map fun u => ⟨k, u.offset, u.width⟩ := by
  induction ds with
  | nil => intro offset; rfl
  | cons d ds ih =>
    intro offset
    rw [layout, layout, find?, find?]
    split
    · rfl
    · exact ih _

/-- Variables with different names share no byte. -/
theorem find?_layout_disjoint {ds : List Declaration} {name' : String} {v' : View} (hne : name ≠ name') :
    ∀ {offset : Nat}, find? name (layout h offset ds) = some v →
      find? name' (layout h offset ds) = some v' → v.overlaps v' = false := by
  induction ds with
  | nil => intro offset hv; cases hv
  | cons d ds ih =>
    intro offset hv hv'
    rw [layout, find?] at hv hv'
    rw [View.overlaps_eq_false_iff]
    -- of two different names at most one is the first of the layout
    by_cases hn : d.name = name
    · rw [if_pos hn] at hv
      rw [if_neg (fun hn' => hne (hn.symm.trans hn'))] at hv'
      cases hv
      exact Or.inr (Or.inr (find?_layout_bounds hv').2.1)
    · rw [if_neg hn] at hv
      by_cases hn' : d.name = name'
      · rw [if_pos hn'] at hv'
        cases hv'
        exact Or.inr (Or.inl (find?_layout_bounds hv).2.1)
      · rw [if_neg hn'] at hv'
        exact View.overlaps_eq_false_iff.1 (ih hv hv')

/-- A variable reads as its declaration says in a block that holds what the declarations start with. -/
theorem read_layout {s : Store} {ds : List Declaration} (hfits : ∀ d ∈ ds, d.value.width = d.width) :
    ∀ {front : List UInt8}, s.block h = front ++ image ds →
      find? name (layout h front.length ds) = some v →
      ∃ d, (ds.find? fun d => d.name == name) = some d ∧ v.read s = d.value := by
  induction ds with
  | nil => intro front _ hv; cases hv
  | cons d ds ih =>
    intro front hblock hv
    have hd := hfits d List.mem_cons_self
    have hlen : d.value.bytes.length = d.width.bytes := by rw [Value.length_bytes, hd]
    rw [layout, find?] at hv
    rw [List.find?_cons]
    by_cases hn : d.name = name
    · rw [if_pos hn] at hv
      cases hv
      refine ⟨d, by simp [hn], ?_⟩
      -- what comes right behind `front` are the bytes of the first variable
      unfold View.read Store.range
      rw [hblock, List.drop_left' rfl]
      unfold image
      rw [List.flatMap_cons, List.take_left' hlen, Value.toNat_bytes, ← hd, Value.ofNat_magnitude]
    · rw [if_neg hn] at hv
      simp only [beq_eq_false_iff_ne.2 hn]
      -- for the variables behind it, the bytes of the first one are part of the front
      have hfront : s.block h = (front ++ d.value.bytes) ++ image ds := by
        rw [hblock, List.append_assoc]
        rfl
      refine ih (fun d' hd' => hfits d' (List.mem_cons_of_mem _ hd')) hfront ?_
      rw [List.length_append, hlen]
      exact hv

/-- The width of a placed name is its width in the program. -/
theorem Program.map_width_place (p : Program) (data registers : Handle) (name : String) :
    (p.place data registers name).map View.width = p.width? name := by
  unfold Program.place Program.width?
  split
  · rfl
  · exact map_width_find?_layout data name p.declarations 0

end Place

/-- The machine of a program is in the scope of its declarations, at the first instruction. -/
theorem Machine.run_load (p : Program) (settings : Settings) (w : World) :
    (Machine.load p settings).run w =
      match (Scope.load p.declarations).run
          { w with log := w.log.push (.loading p.declarations.length p.dataSize p.length) } with
      | .ok scope w' => .ok ⟨p, settings, scope, 0, .zero⟩ w'
      | .error e w' => .error e w' := by
  unfold Machine.load
  simp only [EStateM.run_bind, Action.run_emit]
  cases (Scope.load p.declarations).run
    { w with log := w.log.push (.loading p.declarations.length p.dataSize p.length) } <;> rfl

/-- **What a loaded machine is.** -/
theorem Machine.load_ok {p : Program} {settings : Settings} {w w' : World} {m : Machine}
    (h : (Machine.load p settings).run w = .ok m w') :
    ∃ scope, m = ⟨p, settings, scope, 0, .zero⟩ ∧ Scope.Loaded p.declarations w.store scope w'.store := by
  rw [Machine.run_load] at h
  split at h
  case h_1 scope w₁ hs =>
    cases h
    have hl := Scope.load_ok hs
    exact ⟨scope, rfl, hl⟩
  case h_2 => cases h

end Octet
