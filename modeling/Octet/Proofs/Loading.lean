import Octet.Proofs.Layout
import Octet.Proofs.Listing

/-!
# Which programs load

A program loads if no name is declared twice, none belongs to a register and every value has the size that
is declared for it. What has been read from a source text is such a program: the check of the names that
reading makes line by line leaves nothing that loading could complain about.

* `Loadable`: the three conditions.
* `Scope.load_of_loadable`: **loadable declarations load.**
* `Program.loadable_of_parse`: what has been read is loadable.
* `Machine.ofSource_parse`: **a source text loads if it can be read**, and fails with the reader's error if not.
-/

namespace Octet

/-- Declarations with different names, none of a register, and values of the declared size. -/
structure Loadable (ds : List Declaration) : Prop where
  nodup : (ds.map Declaration.name).Nodup
  free : ∀ d ∈ ds, Register.ofName? d.name = none
  fits : ∀ d ∈ ds, d.value.width = d.width

namespace Scope

variable {scope : Scope}

theorem bindNew_of_lookup? {name : String} (hfree : scope.lookup? name = none) (v : View) :
    scope.bindNew name v = .ok (scope.bind name v) := by
  unfold bindNew
  rw [hfree]
  rfl

/-- Variables are bound if their names are new, their values fit and there is room for them. -/
theorem bindVariables_of_free (ds : List Declaration) : ∀ (scope : Scope) (offset : Nat) (w : World),
    offset + Width.total (ds.map Declaration.width) ≤ (w.store.block scope.data).length →
    (∀ d ∈ ds, scope.lookup? d.name = none) → (ds.map Declaration.name).Nodup →
    (∀ d ∈ ds, d.value.width = d.width) →
    ∃ scope' w', (bindVariables scope offset ds).run w = .ok scope' w' := by
  induction ds with
  | nil => intro scope offset w _ _ _ _; exact ⟨scope, w, rfl⟩
  | cons d ds ih =>
    intro scope offset w hroom hfree hnodup hfits
    rw [List.map_cons, Width.total] at hroom
    rw [List.map_cons, List.nodup_cons] at hnodup
    have hw := hfits d List.mem_cons_self
    rw [run_bindVariables_cons scope offset d ds w (by omega), if_pos hw,
      bindNew_of_lookup? (hfree d List.mem_cons_self)]
    refine ih _ _ _ (World.room_withVariable hw hroom) ?_ hnodup.2
      fun d' hd' => hfits d' (List.mem_cons_of_mem _ hd')
    -- the names that follow are still new, because none of them is `d.name`
    intro d' hd'
    have hne : d'.name ≠ d.name := fun hn => hnodup.1 (hn ▸ List.mem_map_of_mem hd')
    show (scope.bind d.name _).lookup? d'.name = none
    rw [lookup?_bind, if_neg hne]
    exact hfree d' (List.mem_cons_of_mem _ hd')

theorem bindRegisters_of_free (rs : List Register) : ∀ scope : Scope,
    (∀ r ∈ rs, scope.lookup? r.name = none) → (rs.map Register.name).Nodup →
    ∃ scope', bindRegisters scope rs = .ok scope' := by
  induction rs with
  | nil => intro scope _ _; exact ⟨scope, rfl⟩
  | cons r rs ih =>
    intro scope hfree hnodup
    rw [List.map_cons, List.nodup_cons] at hnodup
    rw [bindRegisters, bindNew_of_lookup? (hfree r List.mem_cons_self), ok_bind]
    refine ih _ ?_ hnodup.2
    intro r' hr'
    have hne : r'.name ≠ r.name := fun hn => hnodup.1 (hn ▸ List.mem_map_of_mem hr')
    rw [lookup?_bind, if_neg hne]
    exact hfree r' (List.mem_cons_of_mem _ hr')

/-- **Loadable declarations load.** -/
theorem load_of_loadable {ds : List Declaration} (hds : Loadable ds) (w : World) :
    ∃ scope w', (load ds).run w = .ok scope w' := by
  have hroom := room_blank w.store (Width.total (ds.map Declaration.width))
  obtain ⟨scope, w', hvars⟩ := bindVariables_of_free ds
    ⟨[], [], ⟨w.store.blocks.size⟩, ⟨w.store.blocks.size + 1⟩⟩ 0
    { w with store := blank w.store (Width.total (ds.map Declaration.width)) } hroom
    (fun _ _ => rfl) hds.nodup hds.fits
  obtain ⟨hscope, -⟩ := bindVariables_ok ds _ _ _ _ _ hvars hroom
  -- the registers come last and find only declared names before them
  have hregisters : ∀ r ∈ Register.all, scope.lookup? r.name = none := by
    intro r _
    rw [hscope]
    refine find?_eq_none_iff.2 ?_
    intro entry hmem hn
    obtain ⟨d, hd, hdn⟩ := mem_layout hmem
    exact Register.ne_name_of_ofName? (hds.free d hd) r (hdn.symm.trans hn)
  obtain ⟨scope', hregs⟩ := bindRegisters_of_free Register.all scope hregisters (by decide)
  refine ⟨scope', w', ?_⟩
  rw [run_load, hvars]
  simp only [hregs]

namespace Loaded

variable {p : Program} {before after : Store}

/-- A loaded register is zero. -/
theorem read_register (hl : Loaded p.declarations before scope after) (r : Register) :
    scope.read after r.name = .ok (Value.ofInt 0 r.width) := by
  have hlookup := hl.lookup? r.name
  unfold Program.place at hlookup
  rw [Register.ofName?_name] at hlookup
  unfold Scope.read Scope.get
  rw [hlookup]
  show Except.ok (Value.ofNat (Bytes.toNat (((after.block scope.registers).drop _).take _)) _) = _
  rw [hl.block_registers]
  rcases r with ⟨bank, part⟩
  cases bank <;> cases part <;> rfl

/-- A loaded variable has the value of its declaration. -/
theorem read_declaration (hl : Loaded p.declarations before scope after) {d : Declaration}
    (hd : d ∈ p.declarations) : scope.read after d.name = .ok d.value := by
  have hdecl := find?_declaration hl.nodup hd
  have hlookup := hl.lookup? d.name
  unfold Program.place at hlookup
  rw [hl.free d hd] at hlookup
  have hwidth := map_width_find?_layout scope.data d.name p.declarations 0
  rw [hdecl] at hwidth
  obtain ⟨v, hv, -⟩ := Option.map_eq_some_iff.1 hwidth
  have hblock : after.block scope.data = [] ++ image p.declarations := hl.block_data
  obtain ⟨d', hd', hread⟩ := read_layout hl.fits hblock hv
  rw [hdecl] at hd'
  cases hd'
  have hfound : scope.lookup? d.name = some v := hlookup.trans hv
  unfold Scope.read Scope.get
  rw [hfound]
  exact congrArg Except.ok hread

end Loaded
end Scope

namespace Program

/-- A name that is not taken belongs to no register and to no earlier variable. -/
theorem isTaken_eq_false {declared : List String} {name : String} (h : isTaken declared name = false) :
    Register.ofName? name = none ∧ name ∉ declared := by
  simpa [isTaken] using h

/-- **Fresh declarations have different names**, none of them taken from the start. -/
theorem Fresh.names {ds : List Declaration} : ∀ {declared : List String}, Fresh declared ds →
    (ds.map Declaration.name).Nodup ∧ ∀ d ∈ ds, Register.ofName? d.name = none ∧ d.name ∉ declared := by
  induction ds with
  | nil => intro declared _; exact ⟨List.nodup_nil, by simp⟩
  | cons d ds ih =>
    intro declared hfresh
    obtain ⟨hfirst, hrest⟩ := hfresh
    obtain ⟨hnodup, hfree⟩ := ih hrest
    have hd := isTaken_eq_false hfirst
    refine ⟨?_, ?_⟩
    · rw [List.map_cons, List.nodup_cons]
      refine ⟨?_, hnodup⟩
      intro hmem
      obtain ⟨d', hd', hn⟩ := List.mem_map.1 hmem
      exact (hfree d' hd').2 (hn ▸ List.mem_cons_self)
    · rw [List.forall_mem_cons]
      refine ⟨hd, ?_⟩
      intro d' hd'
      obtain ⟨hr, hnot⟩ := hfree d' hd'
      exact ⟨hr, fun hmem => hnot (List.mem_cons_of_mem _ hmem)⟩

/-- **What has been read is loadable.** -/
theorem loadable_of_parse {source : String} {p : Program} (h : parse source = .ok p) : Loadable p.declarations := by
  obtain ⟨⟨hdeclarations, -, hfresh⟩, -⟩ := wellFormed_ofLines _ h
  obtain ⟨hnodup, hfree⟩ := hfresh.names
  exact ⟨hnodup, fun d hd => (hfree d hd).1, fun d hd => (hdeclarations d hd).2⟩

end Program

namespace Machine

/-- A program with loadable declarations loads. -/
theorem load_of_loadable {p : Program} (hp : Loadable p.declarations) (settings : Settings) (w : World) :
    ∃ m w', (load p settings).run w = .ok m w' := by
  obtain ⟨scope, w', hscope⟩ := Scope.load_of_loadable hp
    { w with log := w.log.push (.loading p.declarations.length p.dataSize p.length) }
  rw [run_load, hscope]
  exact ⟨_, _, rfl⟩

theorem run_ofSource (source : String) (settings : Settings) (w : World) :
    (ofSource source settings).run w =
      match Program.parse source with
      | .ok p => (load p settings).run w
      | .error e => .error e w := by
  unfold ofSource
  rw [EStateM.run_bind]
  cases Program.parse source <;> rfl

/-- **A source text that can be read loads, and one that cannot fails with the reader's error.** The new
machine is at its first instruction with nothing executed, its registers are zero and its variables have
the values of their declarations. -/
theorem ofSource_parse (source : String) (settings : Settings) (w : World) :
    (∀ e w', (ofSource source settings).run w = .error e w' ↔ Program.parse source = .error e ∧ w' = w) ∧
      ∀ p, Program.parse source = .ok p →
        ∃ m w', (ofSource source settings).run w = .ok m w' ∧ (load p settings).run w = .ok m w' ∧
          m.program = p ∧ m.settings = settings ∧ m.ip = 0 ∧ m.tally = .zero ∧
          (∀ r : Register, m.read w'.store r.name = .ok (.ofInt 0 r.width)) ∧
          ∀ d ∈ p.declarations, m.read w'.store d.name = .ok d.value := by
  have hrun := run_ofSource source settings w
  cases hparse : Program.parse source with
  | error e =>
    rw [hparse] at hrun
    refine ⟨?_, ?_⟩
    · intro e' w'
      simp only [hrun, EStateM.Result.error.injEq, Except.error.injEq, eq_comm (a := w)]
    · intro p hp
      cases hp
  | ok p =>
    obtain ⟨m, w', hload⟩ := load_of_loadable (Program.loadable_of_parse hparse) settings w
    rw [hparse] at hrun
    have hsource := hrun.trans hload
    refine ⟨?_, ?_⟩
    · intro e w''
      simp [hsource]
    · intro q hq
      cases hq
      obtain ⟨scope, rfl, hl⟩ := load_ok hload
      exact ⟨_, w', hsource, hload, rfl, rfl, rfl, rfl, hl.read_register, fun d hd => hl.read_declaration hd⟩

/-- Declarations stand among instructions, one value wraps and one name is in capitals; the second text
declares a register after a line that could be read. -/
theorem ofSource_parse_interleaved :
    let source := "define b db 300\nmov ax, b\nDEFINE Mov DW -2 ; two below"
    let p : Program := ⟨[.make "b" .byte 44, .make "mov" .word (-2)], [.binary .mov "ax" (.name "b")]⟩
    let settings : Settings := ⟨true, some 0, .rebind⟩
    Program.parse source = .ok p ∧
      (∃ m w', (load p settings).run .empty = .ok m w' ∧ m.ip = 0 ∧ m.read w'.store "dh" = .ok (.ofInt 0 .byte) ∧
        m.read w'.store "mov" = .ok (.ofInt (-2) .word)) ∧
      (ofSource "define b db 1\ndefine AL db 2" settings).run .empty = .error (.alreadyDefined "al") .empty := by
  intro source p settings
  have hp : Program.parse source = .ok p := by decide +kernel
  obtain ⟨m, w', -, hload, -, -, hip, -, hregister, hvariable⟩ := (ofSource_parse source settings .empty).2 p hp
  refine ⟨hp, ⟨m, w', hload, hip, hregister ⟨.d, .high⟩, hvariable (.make "mov" .word (-2)) (by decide)⟩, ?_⟩
  refine ((ofSource_parse _ settings .empty).1 _ _).2 ⟨?_, rfl⟩
  decide +kernel

end Machine
end Octet
