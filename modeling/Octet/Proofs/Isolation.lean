import Octet.Fleet
import Octet.Proofs.Loading
import Octet.Proofs.Renaming

/-!
# Machines of a fleet do not see each other

All machines of a fleet have their bytes in one store, and a `cwd` may take a new block at any time. Still
no machine can tell that it is not alone. What one machine does touches no block that it does not own, and
a block that comes to be owned is new; so no block is ever owned twice, and what a machine owns is changed
by itself only.

* `Framed`: what a call may do to the store.
* `framed_stable`: **a call changes only owned blocks and takes only new ones.**
* `Machine.load_keeps`: loading changes no block, whether it succeeds or fails.
* `Fleet.Isolated.obey`: isolation is kept by every order.
* `Fleet.history_isolated`: **each machine answers as if it were alone, and no two share a block.**
-/

namespace Octet

open Scope

/-- Every block of a store is in another one too, and those that were not touched hold the same bytes. -/
def Store.Keeps (s t : Store) (touched : Handle → Prop) : Prop :=
  ∀ h, s.Has h → t.Has h ∧ (¬ touched h → t.block h = s.block h)

namespace Store.Keeps

variable {s t u : Store} {touched : Handle → Prop}

theorem refl (s : Store) (touched : Handle → Prop) : s.Keeps s touched :=
  fun _ hs => ⟨hs, fun _ => rfl⟩

theorem trans (hst : s.Keeps t touched) (htu : t.Keeps u touched) : s.Keeps u touched := by
  intro h hs
  obtain ⟨ht, hblock⟩ := hst h hs
  obtain ⟨hu, hblock'⟩ := htu h ht
  exact ⟨hu, fun hh => (hblock' hh).trans (hblock hh)⟩

theorem patch (s : Store) (touched : Handle → Prop) {h : Handle} (hh : touched h) (offset : Nat) (bytes : List UInt8) :
    s.Keeps (s.patch h offset bytes) touched := by
  intro k hs
  refine ⟨Store.has_patch.2 hs, ?_⟩
  intro hk
  exact Store.block_patch_of_ne fun he => hk (he ▸ hh)

theorem alloc (s : Store) (bytes : List UInt8) (touched : Handle → Prop) : s.Keeps (s.alloc bytes).2 touched :=
  fun _ hs => ⟨Store.has_alloc hs bytes, fun _ => Store.block_alloc_of_has hs bytes⟩

end Store.Keeps

/-- What a machine may do: it changes the blocks that it owns, and the blocks that it comes to own are new. -/
structure Framed (s t : State) : Prop where
  keeps : s.store.Keeps t.store s.machine.scope.Owns
  owns : ∀ h, t.machine.scope.Owns h → s.machine.scope.Owns h ∨ ¬ s.store.Has h

namespace Framed

variable {s t : State}

theorem refl (s : State) : Framed s s :=
  ⟨.refl _ _, fun _ hh => Or.inl hh⟩

theorem assign (hst : Framed s t) (name : String) (x : Value) : Framed s (t.assign name x) := by
  refine ⟨?_, by rw [State.machine_assign]; exact hst.owns⟩
  cases hv : t.machine.scope.lookup? name with
  | none =>
    unfold State.assign
    rw [hv]
    exact hst.keeps
  | some v =>
    rw [State.store_assign hv]
    intro h hs
    obtain ⟨ht, hblock⟩ := hst.keeps h hs
    refine ⟨Store.has_patch.2 ht, ?_⟩
    intro hh
    -- the written block is owned by now, so it was owned or was not there
    have hne : h ≠ v.handle := by
      rintro rfl
      rcases hst.owns _ (Owns.view hv) with hown | hnew
      · exact hh hown
      · exact hnew hs
    rw [Store.block_patch_of_ne hne]
    exact hblock hh

theorem detachDx (hst : Framed s t) (x : Value) : Framed s (t.detachDx x) := by
  refine ⟨hst.keeps.trans (.alloc t.store x.bytes _), ?_⟩
  intro h hh
  rcases Owns.of_bind hh with hown | rfl
  · exact hst.owns h hown
  · exact Or.inr fun hs => (hst.keeps _ hs).1.ne_next rfl

end Framed

/-- **A call changes only owned blocks and takes only new ones.** -/
theorem framed_stable (s : State) : Stable (Framed s) where
  log _ _ hst := ⟨hst.keeps, hst.owns⟩
  assign t name x hst _ := hst.assign name x
  execute t i x hst _ hx := by
    have hdeliver : Framed s (t.deliver i x) := by
      obtain ⟨-, -, hd⟩ | ⟨-, -, hd⟩ := State.deliver_cases hx
      · rw [hd]
        exact hst.assign i.target x
      · rw [hd]
        exact hst.detachDx x
    exact ⟨hdeliver.keeps, hdeliver.owns⟩

/-- Binding the variables touches their block only, whether it succeeds or fails. -/
theorem Scope.bindVariables_keeps (ds : List Declaration) : ∀ (scope : Scope) (offset : Nat) (w : World),
    offset + Width.total (ds.map Declaration.width) ≤ (w.store.block scope.data).length →
    match (bindVariables scope offset ds).run w with
    | .ok _ w' => w.store.Keeps w'.store (· = scope.data)
    | .error _ w' => w.store.Keeps w'.store (· = scope.data) := by
  induction ds with
  | nil => intro scope offset w _; exact .refl _ _
  | cons d ds ih =>
    intro scope offset w hroom
    rw [List.map_cons, Width.total] at hroom
    rw [run_bindVariables_cons scope offset d ds w (by omega)]
    have hpatch : w.store.Keeps (w.withVariable scope.data offset d).store (· = scope.data) :=
      .patch w.store (· = scope.data) rfl offset d.value.bytes
    by_cases hw : d.value.width = d.width
    · rw [if_pos hw]
      cases hb : scope.bindNew d.name ⟨scope.data, offset, d.width⟩ with
      | error e => exact hpatch
      | ok next =>
        obtain ⟨-, rfl⟩ := bindNew_ok hb
        have hrest := ih { scope with
          entries := scope.entries ++ [(d.name, ⟨scope.data, offset, d.width⟩)]
          declared := scope.declared ++ [d.name] } (offset + d.width.bytes) (w.withVariable scope.data offset d)
          (World.room_withVariable hw hroom)
        simp only
        split at hrest
        · exact hpatch.trans hrest
        · exact hpatch.trans hrest
    · rw [if_neg hw]
      exact .refl _ _

/-- The blocks of zeros are new. -/
theorem Scope.blank_keeps (s : Store) (size : Nat) (touched : Handle → Prop) : s.Keeps (blank s size) touched :=
  (Store.Keeps.alloc s _ touched).trans (.alloc _ _ touched)

/-- **Loading changes no block**, whether it succeeds or fails. -/
theorem Scope.load_keeps (ds : List Declaration) (w : World) :
    match (load ds).run w with
    | .ok _ w' => w.store.Keeps w'.store fun _ => False
    | .error _ w' => w.store.Keeps w'.store fun _ => False := by
  have hvars := bindVariables_keeps ds ⟨[], [], ⟨w.store.blocks.size⟩, ⟨w.store.blocks.size + 1⟩⟩ 0
    { w with store := blank w.store (Width.total (ds.map Declaration.width)) } (room_blank w.store _)
  have hkeeps : ∀ t : Store, (blank w.store (Width.total (ds.map Declaration.width))).Keeps t (· = w.store.next) →
      w.store.Keeps t fun _ => False := by
    intro t ht h hs
    obtain ⟨hhas, hblock⟩ := ((blank_keeps w.store _ _).trans ht) h hs
    exact ⟨hhas, fun _ => hblock hs.ne_next⟩
  rw [run_load]
  cases hrun : (bindVariables ⟨[], [], ⟨w.store.blocks.size⟩, ⟨w.store.blocks.size + 1⟩⟩ 0 ds).run
      { w with store := blank w.store (Width.total (ds.map Declaration.width)) } with
  | error e w' =>
    rw [hrun] at hvars
    exact hkeeps _ hvars
  | ok scope w' =>
    rw [hrun] at hvars
    simp only
    cases bindRegisters scope Register.all with
    | error e => exact hkeeps _ hvars
    | ok scope => exact hkeeps _ hvars

theorem Machine.load_keeps (p : Program) (settings : Settings) (w : World) :
    match (Machine.load p settings).run w with
    | .ok _ w' => w.store.Keeps w'.store fun _ => False
    | .error _ w' => w.store.Keeps w'.store fun _ => False := by
  have hscope := Scope.load_keeps p.declarations
    { w with log := w.log.push (.loading p.declarations.length p.dataSize p.length) }
  rw [Machine.run_load]
  cases hrun : (Scope.load p.declarations).run
      { w with log := w.log.push (.loading p.declarations.length p.dataSize p.length) } with
  | ok scope w' => rw [hrun] at hscope; exact hscope
  | error e w' => rw [hrun] at hscope; exact hscope

/-- Calls that got these answers would have got them from a machine of its own in any world, and the machine
would have come to a state that differs only in its handles. -/
def Solitary (p : Program) (settings : Settings) (dealings : List (Call × Answer)) (s : State) : Prop :=
  ∀ w, ∃ m w', (Machine.load p settings).run w = .ok m w' ∧
    (session State.perform ⟨w', m⟩ (dealings.map Prod.fst)).1 = dealings.map Prod.snd ∧
    ∃ ρ, Renamed ρ s (session State.perform ⟨w', m⟩ (dealings.map Prod.fst)).2

namespace Solitary

variable {p : Program} {settings : Settings} {dealings : List (Call × Answer)} {s : State}

theorem has (hs : Solitary p settings dealings s) {h : Handle} (hh : s.machine.scope.Owns h) : s.store.Has h := by
  obtain ⟨_, _, -, -, ρ, hρ⟩ := hs .empty
  exact (hρ.blocks h hh).1

/-- A machine that has just been loaded. -/
theorem of_load {w w' : World} {m : Machine} (hload : (Machine.load p settings).run w = .ok m w') :
    Solitary p settings [] ⟨w', m⟩ := by
  intro w₀
  obtain ⟨scope, rfl, hl⟩ := Machine.load_ok hload
  obtain ⟨m₀, w₀', hload₀⟩ := Machine.load_of_loadable ⟨hl.nodup, hl.free, hl.fits⟩ settings w₀
  obtain ⟨scope₀, rfl, hl₀⟩ := Machine.load_ok hload₀
  exact ⟨_, w₀', hload₀, rfl, hl.renamed hl₀⟩

/-- One more call is answered as it would be without the others. -/
theorem perform (hs : Solitary p settings dealings s) (c : Call) :
    Solitary p settings (dealings ++ [(c, (s.perform c).1)]) (s.perform c).2 := by
  intro w
  obtain ⟨m, w', hload, hanswers, hrenamed⟩ := hs w
  obtain ⟨hanswer, hrenamed'⟩ := Renamed.simulation.perform hrenamed c fun _ _ _ => trivial
  refine ⟨m, w', hload, ?_⟩
  rw [List.map_append, List.map_append, List.map_singleton, List.map_singleton, session_concat, hanswers, hanswer]
  exact ⟨rfl, hrenamed'⟩

/-- What others do to the store goes unnoticed if they keep to their blocks. -/
theorem keeps {w w' : World} {m : Machine} {touched : Handle → Prop} (hs : Solitary p settings dealings ⟨w, m⟩)
    (hkeeps : w.store.Keeps w'.store touched) (hfree : ∀ h, m.scope.Owns h → ¬ touched h) :
    Solitary p settings dealings ⟨w', m⟩ := by
  intro w₀
  obtain ⟨m₀, w₀', hload, hanswers, ρ, hρ⟩ := hs w₀
  refine ⟨m₀, w₀', hload, hanswers, ρ, hρ.withStores rfl rfl ?_⟩
  intro h hh
  obtain ⟨hhas, hhas', hblock⟩ := hρ.blocks h hh
  obtain ⟨hnow, hsame⟩ := hkeeps h hhas
  exact ⟨hnow, hhas', hblock.trans (hsame (hfree h hh)).symm⟩

end Solitary

namespace Fleet

/-- What is asked of a fleet. -/
inductive Order where
  | launch (program : Program) (settings : Settings)
  | call (i : Nat) (c : Call)
  deriving DecidableEq, Repr

/-- What became of an order. -/
inductive Entry where
  | launched (program : Program) (settings : Settings)
  | refused (e : Error)
  | answered (i : Nat) (c : Call) (answer : Answer)
  /-- There is no such machine. -/
  | missing (i : Nat)

/-- What a machine that was launched has been launched with. -/
def Entry.launched? : Entry → Option (Program × Settings)
  | .launched p settings => some (p, settings)
  | _ => none

/-- The call that machine `i` has answered, and the answer. -/
def Entry.answered? (i : Nat) : Entry → Option (Call × Answer)
  | .answered j c answer => if j = i then some (c, answer) else none
  | _ => none

/-- What the machines of a fleet have been launched with, in order. -/
def launches (entries : List Entry) : List (Program × Settings) :=
  entries.filterMap Entry.launched?

/-- The calls that machine `i` has answered, and the answers, in order. -/
def dealings (i : Nat) (entries : List Entry) : List (Call × Answer) :=
  entries.filterMap (Entry.answered? i)

/-- What becomes of an order, and the fleet after it. -/
def obey (fleet : Fleet) : Order → Entry × Fleet
  | .launch p settings =>
    match fleet.launch p settings with
    | (.ok (), next) => (.launched p settings, next)
    | (.error e, next) => (.refused e, next)
  | .call i c =>
    match fleet.on i c.exec with
    | some (answer, next) => (.answered i c answer, next)
    | none => (.missing i, fleet)

/-- What becomes of orders that follow one another, and the fleet after the last one. -/
def history (fleet : Fleet) : List Order → List Entry × Fleet
  | [] => ([], fleet)
  | order :: orders =>
    let rest := history (fleet.obey order).2 orders
    ((fleet.obey order).1 :: rest.1, rest.2)

variable {fleet : Fleet} {past : List Entry}

/-- **What becomes of a launch.** -/
theorem obey_launch (fleet : Fleet) (p : Program) (settings : Settings) :
    fleet.obey (.launch p settings) =
      match (Machine.load p settings).run fleet.toWorld with
      | .ok m w => (.launched p settings, ⟨w, fleet.machines.push m⟩)
      | .error e w => (.refused e, { fleet with toWorld := w }) := by
  simp only [obey, Fleet.launch]
  cases (Machine.load p settings).run fleet.toWorld <;> rfl

/-- **What becomes of a call.** -/
theorem obey_call (fleet : Fleet) (i : Nat) (c : Call) :
    fleet.obey (.call i c) =
      match fleet.state? i with
      | some s => (.answered i c (s.perform c).1, fleet.update i (s.perform c).2)
      | none => (.missing i, fleet) := by
  simp only [obey, Fleet.on, State.perform]
  cases fleet.state? i with
  | none => rfl
  | some s =>
    simp only [Option.map_some]
    cases c.exec.run s <;> rfl

/-- An update changes one machine. -/
theorem getElem?_update {i j : Nat} {s : State} {m : Machine} (hm : (fleet.update i s).machines[j]? = some m) :
    j = i ∧ m = s.machine ∨ j ≠ i ∧ fleet.machines[j]? = some m := by
  unfold update at hm
  rw [Array.getElem?_setIfInBounds] at hm
  by_cases hj : i = j
  · rw [if_pos hj] at hm
    split at hm
    · cases hm
      exact Or.inl ⟨hj.symm, rfl⟩
    · cases hm
  · rw [if_neg hj] at hm
    exact Or.inr ⟨Ne.symm hj, hm⟩

theorem launches_concat (past : List Entry) (e : Entry) :
    launches (past ++ [e]) = launches past ++ e.launched?.toList := by
  unfold launches
  rw [List.filterMap_append, List.filterMap_cons, List.filterMap_nil]
  cases e.launched? <;> rfl

theorem dealings_concat (i : Nat) (past : List Entry) (e : Entry) :
    dealings i (past ++ [e]) = dealings i past ++ (e.answered? i).toList := by
  unfold dealings
  rw [List.filterMap_append, List.filterMap_cons, List.filterMap_nil]
  cases e.answered? i <;> rfl

/-- Every machine has answered as if it were alone, and no block has two owners. -/
structure Isolated (past : List Entry) (fleet : Fleet) : Prop where
  size : fleet.machines.size = (launches past).length
  unknown : ∀ i, fleet.machines.size ≤ i → dealings i past = []
  solitary : ∀ i m, fleet.machines[i]? = some m → ∃ p settings, (launches past)[i]? = some (p, settings) ∧
    Solitary p settings (dealings i past) ⟨fleet.toWorld, m⟩
  apart : ∀ (i j : Nat) (m m' : Machine), i ≠ j → fleet.machines[i]? = some m → fleet.machines[j]? = some m' →
    ∀ h, m.scope.Owns h → ¬ m'.scope.Owns h

namespace Isolated

theorem empty (w : World) : Isolated [] ⟨w, #[]⟩ where
  size := rfl
  unknown _ _ := rfl
  solitary i m hm := by simp at hm
  apart i j m m' _ hm := by simp at hm

/-- An order that brings no machine and no answer leaves a fleet isolated if it keeps all blocks. -/
theorem idle (hf : Isolated past fleet) {e : Entry} (hlaunched : e.launched? = none)
    (hanswered : ∀ i, e.answered? i = none) {w : World} (hkeeps : fleet.store.Keeps w.store fun _ => False) :
    Isolated (past ++ [e]) { fleet with toWorld := w } := by
  have hlaunches : launches (past ++ [e]) = launches past := by simp [launches_concat, hlaunched]
  have hdealings : ∀ i, dealings i (past ++ [e]) = dealings i past := by simp [dealings_concat, hanswered]
  refine ⟨?_, ?_, ?_, hf.apart⟩
  · rw [hlaunches]
    exact hf.size
  · intro i hi
    rw [hdealings]
    exact hf.unknown i hi
  · intro i m hm
    obtain ⟨p, settings, hp, hs⟩ := hf.solitary i m hm
    rw [hlaunches, hdealings]
    exact ⟨p, settings, hp, hs.keeps hkeeps fun _ _ => not_false⟩

/-- **A machine that is launched owns new blocks only.** -/
theorem launched (hf : Isolated past fleet) {p : Program} {settings : Settings} {m : Machine} {w : World}
    (hload : (Machine.load p settings).run fleet.toWorld = .ok m w)
    (hkeeps : fleet.store.Keeps w.store fun _ => False) :
    Isolated (past ++ [.launched p settings]) ⟨w, fleet.machines.push m⟩ := by
  have hlaunches : launches (past ++ [.launched p settings]) = launches past ++ [(p, settings)] :=
    launches_concat past _
  have hdealings : ∀ i, dealings i (past ++ [.launched p settings]) = dealings i past := by
    simp [dealings_concat, Entry.answered?]
  obtain ⟨scope, rfl, hl⟩ := Machine.load_ok hload
  -- who was there before owns blocks that were there before
  have hold : ∀ (i : Nat) m', fleet.machines[i]? = some m' → ∀ h, m'.scope.Owns h → ¬ scope.Owns h := by
    intro i m' hm' h hh hnew
    obtain ⟨q, settings', -, hs⟩ := hf.solitary i m' hm'
    exact (hl.new_of_owns hnew).1 (hs.has hh)
  refine ⟨?_, ?_, ?_, ?_⟩
  · rw [hlaunches, Array.size_push, List.length_append, hf.size]
    rfl
  · intro i hi
    rw [Array.size_push] at hi
    rw [hdealings]
    exact hf.unknown i (by omega)
  · intro i m' hm'
    rw [hlaunches, hdealings]
    rw [Array.getElem?_push] at hm'
    split at hm'
    case isTrue hi =>
      cases hm'
      refine ⟨p, settings, ?_, ?_⟩
      · rw [hi, hf.size, List.getElem?_concat_length]
      · rw [hf.unknown i (Nat.le_of_eq hi.symm)]
        exact Solitary.of_load hload
    case isFalse =>
      obtain ⟨q, settings', hq, hs⟩ := hf.solitary i m' hm'
      refine ⟨q, settings', ?_, hs.keeps hkeeps fun _ _ => not_false⟩
      rw [List.getElem?_append_left (List.getElem?_eq_some_iff.1 hq).1, hq]
  · intro i j m₁ m₂ hij h₁ h₂ h hh₁ hh₂
    rw [Array.getElem?_push] at h₁ h₂
    split at h₁
    case isTrue hi =>
      rw [if_neg (by omega)] at h₂
      cases h₁
      exact hold j m₂ h₂ h hh₂ hh₁
    case isFalse =>
      split at h₂
      case isTrue =>
        cases h₂
        exact hold i m₁ h₁ h hh₁ hh₂
      case isFalse => exact hf.apart i j m₁ m₂ hij h₁ h₂ h hh₁ hh₂

/-- What a machine owns after a call is owned by no other machine. -/
theorem free (hf : Isolated past fleet) {i j : Nat} {m m' : Machine} {s : State} (hji : j ≠ i)
    (hm : fleet.machines[i]? = some m) (hm' : fleet.machines[j]? = some m') (hs : Framed ⟨fleet.toWorld, m⟩ s)
    {h : Handle} (hh : m'.scope.Owns h) : ¬ s.machine.scope.Owns h := by
  obtain ⟨p, settings, -, hsolitary⟩ := hf.solitary j m' hm'
  intro hnow
  rcases hs.owns h hnow with hown | hnew
  · exact hf.apart j i m' m hji hm' hm h hh hown
  · exact hnew (hsolitary.has hh)

/-- **A call to one machine goes unnoticed by the others.** -/
theorem answered (hf : Isolated past fleet) {i : Nat} {m : Machine} (hm : fleet.machines[i]? = some m) (c : Call) :
    Isolated (past ++ [.answered i c (State.perform ⟨fleet.toWorld, m⟩ c).1])
      (fleet.update i (State.perform ⟨fleet.toWorld, m⟩ c).2) := by
  have hframed := (framed_stable ⟨fleet.toWorld, m⟩).perform (Framed.refl _) c
  obtain ⟨p, settings, hp, hs⟩ := hf.solitary i m hm
  have hs' := hs.perform c
  have hi : i < fleet.machines.size := (Array.getElem?_eq_some_iff.1 hm).1
  have hlaunches : ∀ a, launches (past ++ [.answered i c a]) = launches past := by
    simp [launches_concat, Entry.launched?]
  have hself : ∀ a, dealings i (past ++ [.answered i c a]) = dealings i past ++ [(c, a)] := by
    simp [dealings_concat, Entry.answered?]
  have hother : ∀ j a, j ≠ i → dealings j (past ++ [.answered i c a]) = dealings j past := by
    intro j a hj
    simp [dealings_concat, Entry.answered?, Ne.symm hj]
  refine ⟨?_, ?_, ?_, ?_⟩
  · rw [hlaunches, ← hf.size]
    exact Array.size_setIfInBounds
  · intro j hj
    unfold update at hj
    rw [Array.size_setIfInBounds] at hj
    rw [hother j _ (by omega)]
    exact hf.unknown j hj
  · intro j m' hm'
    rw [hlaunches]
    obtain ⟨rfl, rfl⟩ | ⟨hj, hm'⟩ := getElem?_update hm'
    · rw [hself]
      exact ⟨p, settings, hp, hs'⟩
    · obtain ⟨q, settings', hq, hsq⟩ := hf.solitary j m' hm'
      rw [hother j _ hj]
      exact ⟨q, settings', hq, hsq.keeps hframed.keeps (hf.apart j i m' m hj hm' hm)⟩
  · intro j k m₁ m₂ hjk h₁ h₂ h hh₁ hh₂
    obtain ⟨rfl, rfl⟩ | ⟨hj, hm₁⟩ := getElem?_update h₁
    · obtain ⟨rfl, -⟩ | ⟨hk, hm₂⟩ := getElem?_update h₂
      · exact hjk rfl
      · exact hf.free hk hm hm₂ hframed hh₂ hh₁
    · obtain ⟨rfl, rfl⟩ | ⟨hk, hm₂⟩ := getElem?_update h₂
      · exact hf.free hj hm hm₁ hframed hh₁ hh₂
      · exact hf.apart j k m₁ m₂ hjk hm₁ hm₂ h hh₁ hh₂

/-- **Isolation is kept by every order.** -/
theorem obey (hf : Isolated past fleet) (order : Order) :
    Isolated (past ++ [(fleet.obey order).1]) (fleet.obey order).2 := by
  cases order with
  | launch p settings =>
    have hkeeps := Machine.load_keeps p settings fleet.toWorld
    rw [obey_launch]
    cases hload : (Machine.load p settings).run fleet.toWorld with
    | ok m w =>
      rw [hload] at hkeeps
      exact hf.launched hload hkeeps
    | error e w =>
      rw [hload] at hkeeps
      exact hf.idle (e := .refused e) rfl (fun _ => rfl) hkeeps
  | call i c =>
    rw [obey_call]
    unfold state?
    cases hm : fleet.machines[i]? with
    | some m => exact hf.answered hm c
    | none => exact hf.idle (e := .missing i) rfl (fun _ => rfl) (.refl _ _)

theorem history (orders : List Order) : ∀ (past : List Entry) (fleet : Fleet), Isolated past fleet →
    Isolated (past ++ (fleet.history orders).1) (fleet.history orders).2 := by
  induction orders with
  | nil => intro past fleet hf; rwa [Fleet.history, List.append_nil]
  | cons order orders ih =>
    intro past fleet hf
    have hrest := ih _ _ (hf.obey order)
    rw [List.append_assoc, List.singleton_append] at hrest
    exact hrest

end Isolated

/-- **Each machine answers as if it were alone, and no two share a block.** Programs are launched into one
world and calls are made to the machines, in any order. Each machine has answered its calls as a machine
with the same program and settings answers them in a world of its own, where no other calls are made, and
cannot be told apart from it. No view of one machine is a view of a block that another machine has a view of. -/
theorem history_isolated (w : World) (orders : List Order) :
    let entries := (history ⟨w, #[]⟩ orders).1
    let fleet := (history ⟨w, #[]⟩ orders).2
    fleet.machines.size = (launches entries).length ∧
    (∀ i m, fleet.machines[i]? = some m → ∃ p settings, (launches entries)[i]? = some (p, settings) ∧
      ∀ w₀, ∃ m₀ w₁, (Machine.load p settings).run w₀ = .ok m₀ w₁ ∧
        let alone := session State.perform ⟨w₁, m₀⟩ ((dealings i entries).map Prod.fst)
        (dealings i entries).map Prod.snd = alone.1 ∧ State.Matches ⟨fleet.toWorld, m⟩ alone.2) ∧
    ∀ (i j : Nat) (m m' : Machine), i ≠ j → fleet.machines[i]? = some m → fleet.machines[j]? = some m' →
      ∀ name name' v v', m.scope.lookup? name = some v → m'.scope.lookup? name' = some v' →
        v.handle ≠ v'.handle := by
  intro entries fleet
  have hf : Isolated entries fleet := Isolated.history orders [] ⟨w, #[]⟩ (.empty w)
  refine ⟨hf.size, ?_, ?_⟩
  · intro i m hm
    obtain ⟨p, settings, hp, hs⟩ := hf.solitary i m hm
    refine ⟨p, settings, hp, ?_⟩
    intro w₀
    obtain ⟨m₀, w₁, hload, hanswers, ρ, hρ⟩ := hs w₀
    exact ⟨m₀, w₁, hload, hanswers.symm, hρ.matching⟩
  · intro i j m m' hij hm hm' name name' v v' hv hv' he
    exact hf.apart i j m m' hij hm hm' v.handle (Owns.view hv) (he ▸ Owns.view hv')

/-- One machine has given `dx` a block of its own before the other one is launched; both go on, take turns
and are written to, and there is no third one. -/
theorem history_isolated_detached :
    let orders : List Order := [.launch .overfull ⟨false, none, .rebind⟩, .call 0 .step, .call 0 .step,
      .launch .overfull ⟨true, some 2, .writeThrough⟩, .call 1 .run, .call 0 (.write "dx" (.ofInt 7 .word)),
      .call 1 (.write "count" (.ofInt 9 .byte)), .call 2 .step, .call 0 .run, .call 1 .run]
    let fleet := (history ⟨.empty, #[]⟩ orders).2
    ∃ m m', fleet.machines[0]? = some m ∧ fleet.machines[1]? = some m' ∧
      (∀ v v', m.scope.lookup? "dx" = some v → m'.scope.lookup? "dl" = some v' → v.handle ≠ v'.handle) ∧
      ∃ m₀ w₀, (Machine.load .overfull ⟨false, none, .rebind⟩).run .empty = .ok m₀ w₀ ∧
        let alone := session State.perform ⟨w₀, m₀⟩ [.step, .step, .write "dx" (.ofInt 7 .word), .run]
        alone.1 = [.ok .done, .ok .done, .ok .done, .error (.widthMismatch 1 2)] ∧
          State.Matches ⟨fleet.toWorld, m⟩ alone.2 := by
  intro orders fleet
  obtain ⟨-, halone, hapart⟩ := history_isolated .empty orders
  have hlaunched : (launches (history ⟨.empty, #[]⟩ orders).1)[0]? = some (.overfull, ⟨false, none, .rebind⟩) := by
    decide +kernel
  have hdealings : dealings 0 (history ⟨.empty, #[]⟩ orders).1 = [(.step, .ok .done), (.step, .ok .done),
      (.write "dx" (.ofInt 7 .word), .ok .done), (.run, .error (.widthMismatch 1 2))] := by
    decide +kernel
  obtain ⟨m, hm⟩ : ∃ m, fleet.machines[0]? = some m := Option.isSome_iff_exists.1 (by decide +kernel)
  obtain ⟨m', hm'⟩ : ∃ m', fleet.machines[1]? = some m' := Option.isSome_iff_exists.1 (by decide +kernel)
  refine ⟨m, m', hm, hm', ?_, ?_⟩
  · intro v v' hv hv'
    exact hapart 0 1 m m' (by decide) hm hm' "dx" "dl" v v' hv hv'
  · obtain ⟨p, settings, hp, hs⟩ := halone 0 m hm
    cases hp.symm.trans hlaunched
    obtain ⟨m₀, w₀, hload, hanswers, hmatches⟩ := hs .empty
    rw [hdealings] at hanswers hmatches
    exact ⟨m₀, w₀, hload, hanswers.symm, hmatches⟩

end Fleet
end Octet
