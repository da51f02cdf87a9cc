import Mathlib.Data.List.Basic
import Mathlib.Data.List.Find
import Octet.Proofs.Loading

/-!
# Where loading puts the variables, and why it fails

Loading goes through the declarations once: each gets the next free bytes of one block, and the first one
that has a value of another size, or the name of an earlier one, ends it. Only then do the registers come,
in their own block, and the first of them whose name has been declared ends it too. So a load that succeeds
has laid out the variables without gaps, and one that fails reports the first fault in this order.

* `Declaration.fault?`: what is wrong with a declaration after others.
* `Scope.bindVariables_error`: **the first declaration with a fault decides.**
* `layout_pairwise`, `layout_covers`: variables share no byte and leave none out.
* `Scope.load_layout`: **when loading succeeds, what it lays out where, and with which error it fails.**
-/

namespace Octet

/-- Declarations of which none has a value of another size or the name of an earlier one. -/
structure Consistent (ds : List Declaration) : Prop where
  nodup : (ds.map Declaration.name).Nodup
  fits : ∀ d ∈ ds, d.value.width = d.width

/-- What is wrong with a declaration that follows others, if anything. The size is judged first. -/
def Declaration.fault? (earlier : List Declaration) (d : Declaration) : Option Error :=
  if d.value.width ≠ d.width then some (.widthMismatch d.width.bytes d.value.width.bytes)
  else if d.name ∈ earlier.map Declaration.name then some (.alreadyDefined d.name)
  else none

/-- One more declaration is consistent with those before it if it has no fault. -/
theorem Consistent.concat {ds : List Declaration} (hds : Consistent ds) {d : Declaration}
    (hw : d.value.width = d.width) (hn : d.name ∉ ds.map Declaration.name) : Consistent (ds ++ [d]) := by
  refine ⟨?_, ?_⟩
  · rw [List.map_append, List.nodup_append]
    refine ⟨hds.nodup, by simp, ?_⟩
    rintro a ha b hb rfl
    rw [List.map_singleton, List.mem_singleton] at hb
    exact hn (hb ▸ ha)
  · intro d' hd'
    rcases List.mem_append.1 hd' with hd' | hd'
    · exact hds.fits d' hd'
    · rw [List.mem_singleton.1 hd']; exact hw

theorem map_fst_layout (h : Handle) (ds : List Declaration) : ∀ offset,
    (layout h offset ds).map Prod.fst = ds.map Declaration.name := by
  induction ds with
  | nil => intro offset; rfl
  | cons d ds ih => intro offset; rw [layout, List.map_cons, List.map_cons, ih]

namespace Scope

theorem isSome_find? (name : String) (entries : List (String × View)) :
    (find? name entries).isSome = decide (name ∈ entries.map Prod.fst) := by
  rw [Bool.eq_iff_iff, decide_eq_true_iff, ← not_iff_not, Bool.not_eq_true, Option.isSome_eq_false_iff,
    Option.isNone_iff_eq_none, find?_eq_none_iff, List.mem_map]
  grind

theorem bindNew_of_isSome {scope : Scope} {name : String} (h : (scope.lookup? name).isSome) (v : View) :
    scope.bindNew name v = .error (.alreadyDefined name) :=
  if_pos h

/-- **The first declaration with a fault decides** how binding the variables fails, if some declarations
have been bound before and there is room for the others. -/
theorem bindVariables_error (ds : List Declaration) : ∀ (earlier : List Declaration) (scope : Scope) (offset : Nat)
    (w : World) (e : Error) (w' : World),
    (bindVariables scope offset ds).run w = .error e w' →
    offset + Width.total (ds.map Declaration.width) ≤ (w.store.block scope.data).length →
    Consistent earlier → (∀ name, (scope.lookup? name).isSome ↔ name ∈ earlier.map Declaration.name) →
    ∃ front d back, ds = front ++ d :: back ∧ Consistent (earlier ++ front) ∧ d.fault? (earlier ++ front) = some e := by
  induction ds with
  | nil => intro earlier scope offset w e w' h; cases h
  | cons d ds ih =>
    intro earlier scope offset w e w' h hroom hearlier hbound
    rw [List.map_cons, Width.total] at hroom
    rw [run_bindVariables_cons scope offset d ds w (by omega)] at h
    by_cases hw : d.value.width = d.width
    · rw [if_pos hw] at h
      by_cases hn : (scope.lookup? d.name).isSome
      · rw [bindNew_of_isSome hn] at h
        cases h
        refine ⟨[], d, ds, rfl, by rwa [List.append_nil], ?_⟩
        rw [List.append_nil, Declaration.fault?, if_neg (not_not_intro hw), if_pos ((hbound _).1 hn)]
      · -- the declaration is bound, and those after it follow it too
        have hnew : d.name ∉ earlier.map Declaration.name := mt (hbound d.name).2 hn
        have hnext : ∀ name, ((scope.bind d.name ⟨scope.data, offset, d.width⟩).lookup? name).isSome ↔
            name ∈ (earlier ++ [d]).map Declaration.name := by
          intro name
          rw [lookup?_bind, List.map_append, List.map_singleton, List.mem_append, List.mem_singleton, ← hbound]
          by_cases hname : name = d.name <;> simp [hname]
        rw [bindNew_of_lookup? (by simpa using hn)] at h
        obtain ⟨front, d', back, hds, hfront, hfault⟩ := ih (earlier ++ [d]) _ _ _ e w' h
          (World.room_withVariable hw hroom) (hearlier.concat hw hnew) hnext
        rw [List.append_assoc, List.singleton_append] at hfront hfault
        exact ⟨d :: front, d', back, by rw [hds]; rfl, hfront, hfault⟩
    · rw [if_neg hw] at h
      cases h
      refine ⟨[], d, ds, rfl, by rwa [List.append_nil], ?_⟩
      rw [Declaration.fault?, if_pos hw]

/-- The first register whose name is taken decides how binding the registers fails. -/
theorem bindRegisters_error (rs : List Register) : ∀ (scope : Scope) (e : Error), (rs.map Register.name).Nodup →
    bindRegisters scope rs = .error e →
    ∃ r, (rs.find? fun r => (scope.lookup? r.name).isSome) = some r ∧ e = .alreadyDefined r.name := by
  induction rs with
  | nil => intro scope e _ h; cases h
  | cons r rs ih =>
    intro scope e hnodup h
    rw [List.map_cons, List.nodup_cons] at hnodup
    rw [bindRegisters] at h
    by_cases hn : (scope.lookup? r.name).isSome
    · rw [bindNew_of_isSome hn, error_bind] at h
      cases h
      exact ⟨r, by rw [List.find?_cons, hn], rfl⟩
    · rw [bindNew_of_lookup? (by simpa using hn), ok_bind] at h
      obtain ⟨r', hr', he⟩ := ih _ e hnodup.2 h
      refine ⟨r', ?_, he⟩
      -- the registers after it find their names as they were
      have hsame : ∀ q ∈ rs, ((scope.bind r.name (r.view scope.registers)).lookup? q.name).isSome =
          (scope.lookup? q.name).isSome := by
        intro q hq
        have hne : q.name ≠ r.name := fun hn => hnodup.1 (hn ▸ List.mem_map_of_mem hq)
        rw [lookup?_bind, if_neg hne]
      rw [List.find?_cons, Bool.eq_false_of_not_eq_true hn]
      exact (List.find?_congr hsame).symm.trans hr'

/-- **With which error loading fails.** -/
theorem load_error {ds : List Declaration} {w w' : World} {e : Error} (h : (load ds).run w = .error e w') :
    (∃ front d back, ds = front ++ d :: back ∧ Consistent front ∧ d.fault? front = some e) ∨
      (Consistent ds ∧ ∃ r, (Register.all.find? fun r => decide (r.name ∈ ds.map Declaration.name)) = some r ∧
        e = .alreadyDefined r.name) := by
  have hroom := room_blank w.store (Width.total (ds.map Declaration.width))
  rw [run_load] at h
  split at h
  case h_1 scope w₁ hvars =>
    obtain ⟨rfl, -, hnodup, hfits, -⟩ := bindVariables_ok ds _ _ _ _ _ hvars hroom
    split at h
    case h_1 => cases h
    case h_2 e' hregs =>
      cases h
      obtain ⟨r, hr, he⟩ := bindRegisters_error _ _ _ (by decide) hregs
      refine Or.inr ⟨⟨hnodup, hfits⟩, r, ?_, he⟩
      rw [← hr]
      apply List.find?_congr
      intro q _
      show decide _ = (find? q.name ([] ++ layout _ 0 ds)).isSome
      rw [List.nil_append, isSome_find?, map_fst_layout]
  case h_2 e' w₁ hvars =>
    cases h
    exact Or.inl (bindVariables_error ds [] _ _ _ _ _ hvars hroom ⟨List.nodup_nil, by simp⟩ (by simp [lookup?, find?]))

end Scope

/-- The view of a name can be found where it stands, if no name stands twice. -/
theorem Scope.find?_of_mem {entries : List (String × View)} (hnodup : (entries.map Prod.fst).Nodup)
    {entry : String × View} (hmem : entry ∈ entries) : find? entry.1 entries = some entry.2 := by
  induction entries with
  | nil => cases hmem
  | cons first rest ih =>
    rw [List.map_cons, List.nodup_cons] at hnodup
    rw [find?]
    rcases List.mem_cons.1 hmem with rfl | hmem
    · rw [if_pos rfl]
    · have hne : first.1 ≠ entry.1 := by
        intro hn
        rw [hn] at hnodup
        exact hnodup.1 (List.mem_map_of_mem hmem)
      rw [if_neg hne]
      exact ih hnodup.2 hmem

theorem layout_append (h : Handle) (back front : List Declaration) : ∀ offset,
    layout h offset (front ++ back) =
      layout h offset front ++ layout h (offset + Width.total (front.map Declaration.width)) back := by
  induction front with
  | nil => intro offset; rfl
  | cons d front ih =>
    intro offset
    rw [List.cons_append, layout, layout, ih, List.map_cons, Width.total, List.cons_append, Nat.add_assoc]

/-- **Variables share no byte.** -/
theorem layout_pairwise (h : Handle) (ds : List Declaration) (offset : Nat) :
    (layout h offset ds).Pairwise fun a b => a.2.overlaps b.2 = false := by
  have hviews := View.pairwise_tile h (ds.map Declaration.width) offset
  rw [← map_snd_layout, List.pairwise_map] at hviews
  exact hviews

/-- **Variables leave no byte out.** -/
theorem layout_covers (h : Handle) (ds : List Declaration) {offset k : Nat} (hlow : offset ≤ k)
    (hhigh : k < offset + Width.total (ds.map Declaration.width)) :
    ∃ entry ∈ layout h offset ds, entry.2.offset ≤ k ∧ k < entry.2.stop := by
  obtain ⟨u, hu, hk⟩ := View.exists_mem_tile h (ds.map Declaration.width) hlow hhigh
  rw [← map_snd_layout] at hu
  obtain ⟨entry, hmem, rfl⟩ := List.mem_map.1 hu
  exact ⟨entry, hmem, hk⟩

namespace Scope.Loaded

variable {ds : List Declaration} {before after : Store} {scope : Scope}

theorem loadable (hl : Loaded ds before scope after) : Loadable ds :=
  ⟨hl.nodup, hl.free, hl.fits⟩

theorem lookup?_of_mem_layout (hl : Loaded ds before scope after) {entry : String × View}
    (hmem : entry ∈ layout scope.data 0 ds) : scope.lookup? entry.1 = some entry.2 := by
  have hnodup : ((layout scope.data 0 ds).map Prod.fst).Nodup := by rw [map_fst_layout]; exact hl.nodup
  unfold Scope.lookup?
  rw [hl.entries, find?_append, find?_of_mem hnodup hmem]
  rfl

/-- The listed variables are the declared ones with their places. -/
theorem variableViews (hl : Loaded ds before scope after) : scope.variableViews = layout scope.data 0 ds := by
  unfold Scope.variableViews
  rw [hl.declared, ← map_fst_layout scope.data ds 0, List.filterMap_map]
  have hfound : ∀ entry ∈ layout scope.data 0 ds,
      ((fun name => (scope.lookup? name).map fun v => (name, v)) ∘ Prod.fst) entry = some entry := by
    intro entry hmem
    show (scope.lookup? entry.1).map _ = _
    rw [hl.lookup?_of_mem_layout hmem]
    rfl
  rw [List.filterMap_congr hfound, List.filterMap_some]

/-- A variable starts where those before it end. -/
theorem lookup?_variable (hl : Loaded ds before scope after) {front back : List Declaration} {d : Declaration}
    (hds : ds = front ++ d :: back) :
    scope.lookup? d.name = some ⟨scope.data, Width.total (front.map Declaration.width), d.width⟩ := by
  have hmem : (d.name, ⟨scope.data, Width.total (front.map Declaration.width), d.width⟩) ∈
      layout scope.data 0 ds := by
    rw [hds, layout_append, layout, Nat.zero_add]
    exact List.mem_append_right _ List.mem_cons_self
  exact hl.lookup?_of_mem_layout hmem

theorem lookup?_register (hl : Loaded ds before scope after) (r : Register) :
    scope.lookup? r.name = some (r.view scope.registers) := by
  have hlookup := Loaded.lookup? (p := ⟨ds, []⟩) hl r.name
  unfold Program.place at hlookup
  rwa [Register.ofName?_name] at hlookup

end Scope.Loaded

/-- **When loading succeeds, what it lays out, and with which error it fails.** It succeeds if the names are
different, none is that of a register, and every value has the declared size. Then each variable starts
where those before it end, the variables share no byte with each other or with a register and fill their
block, which holds their values in order. If it fails, the first declaration with a fault decides, and if
there is none, the first register whose name is declared. -/
theorem Scope.load_layout (ds : List Declaration) (w : World) :
    ((∃ scope w', (load ds).run w = .ok scope w') ↔ Loadable ds) ∧
    (∀ scope w', (load ds).run w = .ok scope w' →
      (∀ front d back, ds = front ++ d :: back →
        scope.lookup? d.name = some ⟨scope.data, Width.total (front.map Declaration.width), d.width⟩) ∧
      scope.variableViews = layout scope.data 0 ds ∧
      scope.variableViews.map Prod.fst = ds.map Declaration.name ∧
      (scope.variableViews.Pairwise fun a b => a.2.overlaps b.2 = false) ∧
      (∀ k, k < (w'.store.block scope.data).length ↔
        ∃ entry ∈ scope.variableViews, entry.2.offset ≤ k ∧ k < entry.2.stop) ∧
      w'.store.block scope.data = ds.flatMap (fun d => d.value.bytes) ∧
      ∀ entry ∈ scope.variableViews, ∀ (r : Register) v, scope.lookup? r.name = some v →
        entry.2.overlaps v = false) ∧
    ∀ e w', (load ds).run w = .error e w' →
      (∃ front d back, ds = front ++ d :: back ∧ Consistent front ∧ d.fault? front = some e) ∨
      (Consistent ds ∧ ∃ r, (Register.all.find? fun r => decide (r.name ∈ ds.map Declaration.name)) = some r ∧
        e = .alreadyDefined r.name) := by
  refine ⟨⟨?_, fun hds => load_of_loadable hds w⟩, ?_, fun e w' h => load_error h⟩
  · rintro ⟨scope, w', h⟩
    exact (load_ok h).loadable
  · intro scope w' h
    have hl := load_ok h
    have hviews := hl.variableViews
    have hlength : (w'.store.block scope.data).length = Width.total (ds.map Declaration.width) := by
      rw [hl.block_data, length_image hl.fits]
    refine ⟨fun front d back hds => hl.lookup?_variable hds, hviews, ?_, ?_, ?_, hl.block_data, ?_⟩
    · rw [hviews, map_fst_layout]
    · rw [hviews]
      exact layout_pairwise _ ds 0
    · intro k
      rw [hlength, hviews]
      refine ⟨fun hk => layout_covers _ ds (Nat.zero_le k) (by omega), ?_⟩
      rintro ⟨entry, hmem, -, hk⟩
      have := (mem_layout_bounds hmem).2.2
      omega
    · intro entry hmem r v hv
      rw [hviews] at hmem
      rw [hl.lookup?_register] at hv
      cases hv
      -- the registers are in a block of their own
      rw [View.overlaps_eq_false_iff, (mem_layout_bounds hmem).1]
      exact Or.inl hl.data_ne_registers

/-- Three variables that load, and a declaration with two faults at once after one with none: the size
decides. -/
theorem Scope.load_layout_faults :
    let sound : List Declaration := [.make "a" .byte 1, .make "b" .word 0x0203, .make "c" .byte 4]
    let twice : List Declaration := [.make "al" .byte 1, ⟨"al", .word, .ofInt 7 .dword⟩, .make "al" .byte 2]
    (∃ scope w', (load sound).run .empty = .ok scope w' ∧ scope.lookup? "b" = some ⟨scope.data, 1, .word⟩ ∧
      w'.store.block scope.data = [1, 3, 2, 4]) ∧
    ∃ w', (load twice).run .empty = .error (.widthMismatch 2 4) w' ∧
      ∃ front d back, twice = front ++ d :: back ∧ Consistent front ∧ d.fault? front = some (.widthMismatch 2 4) := by
  intro sound twice
  obtain ⟨hsound, hlayout, -⟩ := load_layout sound .empty
  obtain ⟨-, -, htwice⟩ := load_layout twice .empty
  refine ⟨?_, _, rfl, ?_⟩
  · obtain ⟨scope, w', h⟩ := hsound.2 ⟨by decide, by decide, by decide⟩
    obtain ⟨hplace, -, -, -, -, hbytes, -⟩ := hlayout scope w' h
    exact ⟨scope, w', h, hplace [.make "a" .byte 1] (.make "b" .word 0x0203) [.make "c" .byte 4] rfl, hbytes⟩
  · exact (htwice _ _ rfl).resolve_right fun h => absurd h.1.nodup (by decide)

-- two registers are declared; the one that is declared later comes first among the registers
example : ∃ w', (Scope.load [.make "cl" .byte 1, .make "x" .word 2, .make "bx" .word 3]).run .empty =
    .error (.alreadyDefined "bx") w' :=
  ⟨_, rfl⟩

end Octet
