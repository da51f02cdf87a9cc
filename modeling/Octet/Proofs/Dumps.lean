import Octet.Machine.Dump
import Octet.Proofs.Observation
import Octet.Proofs.Rendering

/-!
# What a state dump tells

A dump shows the index of the next instruction, every register and every variable. Names of variables can be
any text and decimals have no fixed length, so it cannot be taken apart at separators. It can be taken apart
from the front: two machines with one program have the same text before each value, and a value starts with its
hexadecimal digits, as many as its width asks for. The digits give the value, and the value gives the rest of
the line.

* `Discerns`: what it takes for two texts to agree at the front, however they go on.
* `Discerns.join`: the same for texts that are put together of pieces.
* `Value.discerns_hexLiteral`: the hexadecimal texts of values of one width tell the values apart.
* `State.discerns_registers`, `State.discerns_variables`: what the two parts of a dump tell apart.
* `State.dump_eq_iff`: **dumps are equal exactly if the machines are at one instruction and read alike.**
-/

namespace Octet

/-- However they go on, a text that starts with `a` and one that starts with `b` are equal exactly if `P` holds
and they go on alike. -/
def Discerns (P : Prop) (a b : String) : Prop :=
  ∀ rest rest' : String, a ++ rest = b ++ rest' ↔ P ∧ rest = rest'

namespace Discerns

variable {P Q : Prop} {a b c d : String}

theorem refl (a : String) : Discerns True a a := by
  intro rest rest'
  rw [String.append_right_inj, true_and]

theorem congr (h : Discerns P a b) (hPQ : P ↔ Q) : Discerns Q a b := by
  intro rest rest'
  rw [h, hPQ]

theorem append (h : Discerns P a b) (h' : Discerns Q c d) : Discerns (P ∧ Q) (a ++ c) (b ++ d) := by
  intro rest rest'
  rw [String.append_assoc, String.append_assoc, h, h', and_assoc]

/-- A text that is the same on both sides tells nothing. -/
theorem after (h : Discerns P a b) (c : String) : Discerns P (c ++ a) (c ++ b) :=
  ((refl c).append h).congr (by rw [true_and])

/-- What follows may depend on what has been told. -/
theorem determines (h : Discerns P a b) (hcd : P → c = d) : Discerns P (a ++ c) (b ++ d) := by
  intro rest rest'
  rw [String.append_assoc, String.append_assoc, h]
  constructor
  · rintro ⟨hP, hrest⟩
    rw [hcd hP, String.append_right_inj] at hrest
    exact ⟨hP, hrest⟩
  · rintro ⟨hP, rfl⟩
    exact ⟨hP, by rw [hcd hP]⟩

theorem before (h : Discerns P a b) (c : String) : Discerns P (a ++ c) (b ++ c) :=
  h.determines fun _ => rfl

/-- **Texts that are put together of pieces tell what the pieces tell.** -/
theorem join {α : Type} {P : α → Prop} {f g : α → String} (l : List α)
    (h : ∀ e ∈ l, Discerns (P e) (f e) (g e)) :
    Discerns (∀ e ∈ l, P e) (String.join (l.map f)) (String.join (l.map g)) := by
  induction l with
  | nil => exact (refl "").congr (by simp)
  | cons e l ih =>
    rw [List.forall_mem_cons] at h
    rw [List.map_cons, List.map_cons, String.join_cons, String.join_cons]
    exact (h.1.append (ih h.2)).congr (by rw [List.forall_mem_cons])

theorem eq_iff (h : Discerns P a b) : a = b ↔ P := by
  have hempty := h "" ""
  rwa [String.append_empty, String.append_empty, eq_self, and_true] at hempty

/-- Texts of one length agree at the front only if they are equal. -/
theorem of_length (hlength : a.toList.length = b.toList.length) : Discerns (a = b) a b := by
  intro rest rest'
  constructor
  · intro h
    have hlist := congrArg String.toList h
    rw [String.toList_append, String.toList_append] at hlist
    obtain ⟨hab, hrest⟩ := List.append_inj hlist hlength
    exact ⟨String.toList_injective hab, String.toList_injective hrest⟩
  · rintro ⟨rfl, rfl⟩
    rfl

/-- Texts without a character tell each other apart if that character ends them. -/
theorem of_mark {mark : Char} (ha : mark ∉ a.toList) (hb : mark ∉ b.toList) :
    Discerns (a = b) (a ++ String.singleton mark) (b ++ String.singleton mark) := by
  have hsplit : ∀ (cs ds rest rest' : List Char), mark ∉ cs → mark ∉ ds →
      cs ++ mark :: rest = ds ++ mark :: rest' → cs = ds ∧ rest = rest' := by
    intro cs
    induction cs with
    | nil =>
      intro ds rest rest' _ hds h
      cases ds with
      | nil => exact ⟨rfl, (List.cons.inj h).2⟩
      | cons e ds => exact absurd (List.mem_cons.2 (Or.inl (List.cons.inj h).1)) hds
    | cons e cs ih =>
      intro ds rest rest' hcs hds h
      cases ds with
      | nil => exact absurd (List.mem_cons.2 (Or.inl (List.cons.inj h).1.symm)) hcs
      | cons e' ds =>
        obtain ⟨rfl, htail⟩ := List.cons.inj h
        obtain ⟨rfl, hrest⟩ := ih ds rest rest' (fun hm => hcs (List.mem_cons_of_mem _ hm))
          (fun hm => hds (List.mem_cons_of_mem _ hm)) htail
        exact ⟨rfl, hrest⟩
  intro rest rest'
  constructor
  · intro h
    have hlist := congrArg String.toList h
    simp only [String.toList_append, String.toList_singleton, List.append_assoc, List.singleton_append] at hlist
    obtain ⟨hab, hrest⟩ := hsplit _ _ _ _ ha hb hlist
    exact ⟨String.toList_injective hab, String.toList_injective hrest⟩
  · rintro ⟨rfl, rfl⟩
    rfl

end Discerns

namespace Numeral

theorem decimal_injective {m n : Nat} (h : decimal m = decimal n) : m = n := by
  have hm := value?_of_denotes (by decide) (denotes_decimal m)
  have hn := value?_of_denotes (by decide) (denotes_decimal n)
  rw [h, hn] at hm
  exact Option.some.inj hm.symm

/-- A decimal is told by its digits up to the next mark. -/
theorem discerns_decimal (m n : Nat) : Discerns (m = n) (decimal m ++ "/") (decimal n ++ "/") := by
  have hdigits : ∀ k, '/' ∉ (decimal k).toList := by
    intro k hmem
    have hchar := ((isWord_decimal k).char _ hmem).1
    exact absurd hchar (by decide)
  exact (Discerns.of_mark (hdigits m) (hdigits n)).congr ⟨decimal_injective, congrArg decimal⟩

end Numeral

namespace Value

variable {x y : Value}

/-- **The hexadecimal texts of values of one width tell the values apart.** -/
theorem discerns_hexLiteral (hwidth : x.width = y.width) : Discerns (x = y) x.hexLiteral y.hexLiteral := by
  have hlength : x.hex.toList.length = y.hex.toList.length := by rw [length_hex, length_hex, hwidth]
  refine ((Discerns.of_length hlength).after "0x").congr ⟨?_, congrArg hex⟩
  intro h
  have hx := Numeral.value?_of_denotes (by decide) x.denotes_hex
  have hy := Numeral.value?_of_denotes (by decide) y.denotes_hex
  rw [h, hy] at hx
  exact ext hwidth (Option.some.inj hx).symm

/-- The decimal behind the hexadecimal text tells nothing more. -/
theorem discerns_valueText (hwidth : x.width = y.width) :
    Discerns (x = y) (Machine.valueText x) (Machine.valueText y) := by
  unfold Machine.valueText
  rw [String.append_assoc, String.append_assoc, String.append_assoc, String.append_assoc]
  refine (discerns_hexLiteral hwidth).determines ?_
  rintro rfl
  rfl

end Value

/-- A name has one value in two states. -/
def State.Shares (s t : State) (name : String) : Prop :=
  ∃ x, s.machine.read s.store name = .ok x ∧ t.machine.read t.store name = .ok x

/-- The listed variables are the same as long as a machine lives. -/
theorem declared_stable (names : List String) : Stable fun s => s.machine.scope.declared = names where
  log _ _ hs := hs
  assign s name x hs _ := by rw [State.machine_assign]; exact hs
  execute s i x hs _ hx := by
    show (s.deliver i x).machine.scope.declared = names
    obtain ⟨-, -, hd⟩ | ⟨-, -, hd⟩ := State.deliver_cases hx
    · rw [hd, State.machine_assign]
      exact hs
    · rw [hd]
      exact hs

namespace State

variable {p : Program} {s t : State}

/-- A name of the program has views of one width in two states, and they read alike if the name does. -/
theorem exists_views (hs : Typed p s.machine) (ht : Typed p t.machine) {name : String} (hname : (p.width? name).isSome) :
    ∃ v u, s.machine.scope.lookup? name = some v ∧ t.machine.scope.lookup? name = some u ∧
      (v.read s.store).width = (u.read t.store).width ∧ (v.read s.store = u.read t.store ↔ s.Shares t name) := by
  obtain ⟨w, hw⟩ := Option.isSome_iff_exists.1 hname
  obtain ⟨v, hv, hvw⟩ := hs.lookup?_of_width? hw
  obtain ⟨u, hu, huw⟩ := ht.lookup?_of_width? hw
  refine ⟨v, u, hv, hu, hvw.trans huw.symm, ?_⟩
  unfold Shares Machine.read
  rw [Scope.read_of_lookup? hv, Scope.read_of_lookup? hu]
  constructor
  · intro h
    exact ⟨_, rfl, congrArg Except.ok h.symm⟩
  · rintro ⟨x, hx, hx'⟩
    exact Except.ok.inj (hx.trans hx'.symm)

theorem discerns_half (hs : Typed p s.machine) (ht : Typed p t.machine) (r : Register) :
    Discerns (s.Shares t r.name) (s.machine.halfText s.store r) (t.machine.halfText t.store r) := by
  have hname : (p.width? r.name).isSome := by rw [p.width?_register]; rfl
  obtain ⟨v, u, hv, hu, hwidth, hshares⟩ := exists_views hs ht hname
  unfold Machine.halfText
  simp only [hv, hu]
  exact ((Value.discerns_hexLiteral hwidth).after _).congr hshares

/-- A line of a whole register tells it and its halves. -/
theorem discerns_register (hs : Typed p s.machine) (ht : Typed p t.machine) (r : Register) :
    Discerns (s.Shares t r.name ∧ ∀ half ∈ r.halves, s.Shares t half.name)
      (s.machine.registerLine s.store r) (t.machine.registerLine t.store r) := by
  have hname : (p.width? r.name).isSome := by rw [p.width?_register]; rfl
  obtain ⟨v, u, hv, hu, hwidth, hshares⟩ := exists_views hs ht hname
  have hhalves := Discerns.join r.halves fun half _ => discerns_half hs ht half
  unfold Machine.registerLine
  simp only [hv, hu]
  have hvalue := ((Value.discerns_valueText hwidth).congr hshares).after ("\t" ++ r.name ++ " : ")
  exact (hvalue.append hhalves).before "\n"

/-- **The registers in a dump tell all twelve of them.** -/
theorem discerns_registers (hs : Typed p s.machine) (ht : Typed p t.machine) :
    Discerns (∀ r : Register, s.Shares t r.name)
      (String.join (Register.words.map (s.machine.registerLine s.store)))
      (String.join (Register.words.map (t.machine.registerLine t.store))) := by
  refine (Discerns.join Register.words fun r _ => discerns_register hs ht r).congr ?_
  constructor
  · rintro h ⟨bank, part⟩
    have hword : (⟨bank, .whole⟩ : Register) ∈ Register.words :=
      List.mem_map_of_mem (by cases bank <;> decide)
    obtain ⟨hwhole, hhalves⟩ := h _ hword
    cases part with
    | whole => exact hwhole
    | low => exact hhalves ⟨bank, .low⟩ List.mem_cons_self
    | high => exact hhalves ⟨bank, .high⟩ (List.mem_cons_of_mem _ List.mem_cons_self)
  · intro h r _
    exact ⟨h r, fun half _ => h half⟩

/-- **The lines of some variables tell all of them**, whatever their names are. -/
theorem discerns_variables (hs : Typed p s.machine) (ht : Typed p t.machine) (names : List String)
    (hnames : ∀ name ∈ names, (p.width? name).isSome) :
    Discerns (∀ name ∈ names, s.Shares t name)
      (String.join ((names.filterMap fun name => (s.machine.scope.lookup? name).map fun v => (name, v)).map
        (Machine.variableLine s.store)))
      (String.join ((names.filterMap fun name => (t.machine.scope.lookup? name).map fun v => (name, v)).map
        (Machine.variableLine t.store))) := by
  induction names with
  | nil => exact (Discerns.refl "").congr (by simp)
  | cons name names ih =>
    rw [List.forall_mem_cons] at hnames
    obtain ⟨v, u, hv, hu, hwidth, hshares⟩ := exists_views hs ht hnames.1
    have hline : Discerns (s.Shares t name) (Machine.variableLine s.store (name, v))
        (Machine.variableLine t.store (name, u)) :=
      (((Value.discerns_valueText hwidth).congr hshares).after _).before "\n"
    rw [List.filterMap_cons_some (b := (name, v)) (by rw [hv]; rfl),
      List.filterMap_cons_some (b := (name, u)) (by rw [hu]; rfl), List.map_cons, List.map_cons, String.join_cons,
      String.join_cons]
    exact (hline.append (ih hnames.2)).congr (by rw [List.forall_mem_cons])

/-- **A state dump loses nothing.** Two machines that have loaded one program, each with any settings and after any
calls, have equal dumps exactly if they are at one instruction and every register and every variable has one value
in both. -/
theorem dump_eq_iff {a b : Settings} {w₁ w₁' w₂ w₂' : World} {m₁ m₂ : Machine}
    (hload₁ : (Machine.load p a).run w₁ = .ok m₁ w₁') (hload₂ : (Machine.load p b).run w₂ = .ok m₂ w₂')
    (hs : Reaches ⟨w₁', m₁⟩ s) (ht : Reaches ⟨w₂', m₂⟩ t) :
    s.machine.dump s.store = t.machine.dump t.store ↔
      s.machine.ip = t.machine.ip ∧ (∀ r : Register, s.Shares t r.name) ∧
        ∀ d ∈ p.declarations, s.Shares t d.name := by
  obtain ⟨scope₁, rfl, hl₁⟩ := Machine.load_ok hload₁
  obtain ⟨scope₂, rfl, hl₂⟩ := Machine.load_ok hload₂
  have htyped := hs.invariant (typed_stable p) hl₁.typed
  have htyped' := ht.invariant (typed_stable p) hl₂.typed
  have hdeclared := hs.invariant (declared_stable _) hl₁.declared
  have hdeclared' := ht.invariant (declared_stable _) hl₂.declared
  have hnames : ∀ name ∈ p.declarations.map Declaration.name, (p.width? name).isSome := by
    intro name hname
    obtain ⟨d, hd, rfl⟩ := List.mem_map.1 hname
    exact (p.isSome_width? d.name).2 (Or.inr ⟨d, hd, rfl⟩)
  have hlength : s.machine.program.length = t.machine.program.length := by rw [htyped.program, htyped'.program]
  -- the dump piece by piece: what stands between the index, the registers and the variables is the same
  have hindex := (Numeral.discerns_decimal s.machine.ip t.machine.ip).after "ip: "
  rw [← String.append_assoc, ← String.append_assoc] at hindex
  have hhead := ((hindex.determines fun _ => congrArg Numeral.decimal hlength).before "\n").before "registers:\n"
  have hregisters := (hhead.append (discerns_registers htyped htyped')).before "variables:\n"
  have hdump := (hregisters.append (discerns_variables htyped htyped' _ hnames)).eq_iff
  rw [List.forall_mem_map, and_assoc] at hdump
  unfold Machine.dump Scope.variableViews
  rw [hdeclared, hdeclared']
  exact hdump

end State

/-- A program with a variable whose name looks like a line of a dump. -/
def Program.misnamed : Program where
  declarations := [.make "x : 0x05 (5)\n\tx" .byte 200]
  code := [.binary .mov "ax" (.literal (-2)), .cwd]

/-- One machine takes single steps and writes through, one runs with a bound and rebinds. After one instruction
their dumps are equal; after the second one they are still at one instruction with one `dx`, and the dumps
differ, because `dl` does. -/
theorem State.dump_eq_iff_misnamed :
    ∃ m₁ w₁ m₂ w₂, (Machine.load Program.misnamed ⟨false, none, .writeThrough⟩).run .empty = .ok m₁ w₁ ∧
      (Machine.load Program.misnamed ⟨true, some 1, .rebind⟩).run .empty = .ok m₂ w₂ ∧
      (let s := (session State.perform ⟨w₁, m₁⟩ [.step]).2
        let t := (session State.perform ⟨w₂, m₂⟩ [.run]).2
        s.machine.dump s.store = t.machine.dump t.store) ∧
      let s := (session State.perform ⟨w₁, m₁⟩ [.step, .step]).2
      let t := (session State.perform ⟨w₂, m₂⟩ [.run, .run]).2
      s.machine.ip = t.machine.ip ∧ s.Shares t "dx" ∧ s.machine.dump s.store ≠ t.machine.dump t.store := by
  refine ⟨_, _, _, _, rfl, rfl, ?_, ?_⟩
  · intro s t
    refine (@dump_eq_iff Program.misnamed s t ⟨false, none, .writeThrough⟩ ⟨true, some 1, .rebind⟩ .empty _ .empty _
      _ _ rfl rfl ⟨[.step], rfl⟩ ⟨[.run], rfl⟩).2 ⟨by decide +kernel, ?_, ?_⟩
    · rintro ⟨bank, part⟩
      cases bank <;> cases part <;> exact ⟨_, rfl, by decide +kernel⟩
    · intro d hd
      rw [List.mem_singleton.1 hd]
      exact ⟨_, rfl, by decide +kernel⟩
  · intro s t
    refine ⟨by decide +kernel, ⟨_, rfl, by decide +kernel⟩, ?_⟩
    intro hdump
    obtain ⟨-, hregisters, -⟩ := (@dump_eq_iff Program.misnamed s t ⟨false, none, .writeThrough⟩ ⟨true, some 1, .rebind⟩
      .empty _ .empty _ _ _ rfl rfl ⟨[.step, .step], rfl⟩ ⟨[.run, .run], rfl⟩).1 hdump
    obtain ⟨x, hx, hx'⟩ := hregisters .dl
    exact absurd (hx.trans hx'.symm) (by decide +kernel)

end Octet
