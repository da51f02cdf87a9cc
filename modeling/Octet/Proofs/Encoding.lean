import Octet.Proofs.Layout
import Octet.Proofs.WordMachine

/-!
# Words and cells as bytes

A machine keeps its registers and variables as bytes in two blocks, and names are views of them that may
overlap. The bytes encode a word machine if each whole register reads as the word of its bank and each
variable as its cell. Half registers then read as the halves of the words, and a write through any view
is a store of the word machine.

* `Holds`: the bytes of two blocks encode the words and cells of a word machine.
* `Holds.register`: half registers read as the halves of the words.
* `Holds.patch`: **a write through the view of a name is a store under that name.**
* `Scope.Loaded.holds`: loading encodes the word machine before its first instruction.
-/

namespace Octet

open Scope

theorem DataSize.width_injective {a b : DataSize} (h : a.width = b.width) : a = b := by
  revert h
  cases a <;> cases b <;> decide

/-- A cell of an integer is the value of that integer. -/
theorem Cell.value_ofInt (z : Int) (size : DataSize) :
    (Cell.ofInt z size).value = Value.ofInt z size.width := by
  cases size with
  | byte =>
    refine Value.ext rfl ?_
    show (UInt8.ofInt z).toNat = (z % 256).toNat
    simp only [UInt8.ofInt, UInt8.toNat_ofNat']
    omega
  | word =>
    refine Value.ext rfl ?_
    show (UInt16.ofInt z).toNat = (z % 65536).toNat
    simp only [UInt16.ofInt, UInt16.toNat_ofNat']
    omega

namespace Register

variable {h : Handle} {s : Store}

theorem view_bounds (h : Handle) (r : Register) :
    r.bank.offset ≤ (r.view h).offset ∧ (r.view h).stop ≤ r.bank.offset + 2 ∧ r.bank.offset + 2 ≤ blockSize := by
  have hpart : r.part.offset + r.part.width.bytes ≤ 2 := by cases r.part <;> decide
  have hbank : r.bank.offset + 2 ≤ blockSize := by cases r.bank <;> decide
  refine ⟨Nat.le_add_right _ _, ?_, hbank⟩
  show r.bank.offset + r.part.offset + r.part.width.bytes ≤ r.bank.offset + 2
  omega

/-- Registers of different banks share no byte. -/
theorem view_disjoint (h : Handle) {r q : Register} (hb : r.bank ≠ q.bank) :
    (r.view h).overlaps (q.view h) = false := by
  obtain ⟨hr1, hr2, -⟩ := view_bounds h r
  obtain ⟨hq1, hq2, -⟩ := view_bounds h q
  have hbanks : r.bank.offset + 2 ≤ q.bank.offset ∨ q.bank.offset + 2 ≤ r.bank.offset := by
    cases hrb : r.bank <;> cases hqb : q.bank <;> simp_all [Bank.offset]
  rw [View.overlaps_eq_false_iff]
  omega

/-- The two halves of a bank share no byte. -/
theorem halves_disjoint (h : Handle) (bank : Bank) :
    (view h ⟨bank, .low⟩).overlaps (view h ⟨bank, .high⟩) = false := by
  rw [View.overlaps_eq_false_iff]
  exact Or.inr (Or.inr (Nat.le_refl (bank.offset + 1)))

theorem view_inside (hs : blockSize ≤ (s.block h).length) (r : Register) : (r.view h).Inside s := by
  obtain ⟨-, h2, h3⟩ := view_bounds h r
  unfold View.Inside
  show _ ≤ (s.block h).length
  omega

/-- **A word is its low half and 256 times its high half.** -/
theorem magnitude_read_whole (hs : blockSize ≤ (s.block h).length) (bank : Bank) :
    ((view h ⟨bank, .whole⟩).read s).magnitude =
      ((view h ⟨bank, .low⟩).read s).magnitude + 256 * ((view h ⟨bank, .high⟩).read s).magnitude :=
  View.magnitude_read_pair (m := Width.byte) (n := Width.byte) rfl (view_inside hs ⟨bank, .whole⟩)

theorem magnitude_read_half_lt (h : Handle) (s : Store) (bank : Bank) {part : Part} (hp : part ≠ .whole) :
    ((view h ⟨bank, part⟩).read s).magnitude < 256 := by
  cases part with
  | whole => exact absurd rfl hp
  | low => exact ((view h ⟨bank, .low⟩).read s).lt_modulus
  | high => exact ((view h ⟨bank, .high⟩).read s).lt_modulus

end Register

/-- The bytes of two blocks encode the words and cells of a word machine. -/
structure Holds (ds : List Declaration) (data registers : Handle) (s : Store) (f : WordMachine) : Prop where
  ne : data ≠ registers
  roomData : Width.total (ds.map Declaration.width) ≤ (s.block data).length
  roomRegisters : Register.blockSize ≤ (s.block registers).length
  word : ∀ bank, (Register.view registers ⟨bank, .whole⟩).read s = (Cell.word (f.word bank)).value
  cell : ∀ name, (find? name (layout data 0 ds)).map (View.read s) = (f.cell name).map Cell.value

namespace Holds

variable {ds : List Declaration} {data registers : Handle} {s : Store} {f : WordMachine}

/-- Half registers read as the halves of the words. -/
theorem register (hf : Holds ds data registers s f) (r : Register) :
    (r.view registers).read s = (f.register r).value := by
  rcases r with ⟨bank, part⟩
  have hpair := Register.magnitude_read_whole hf.roomRegisters bank
  have hlow := Register.magnitude_read_half_lt registers s bank (show Part.low ≠ .whole by decide)
  rw [hf.word bank] at hpair
  have hword : (Cell.word (f.word bank)).value.magnitude = (f.word bank).toNat := rfl
  -- the word is `low + 256 * high` with `low` below 256, so remainder and quotient give the halves back
  cases part with
  | whole => exact hf.word bank
  | low =>
    refine Value.ext rfl ?_
    show _ = (f.word bank % 256).toUInt8.toNat
    simp only [UInt16.toNat_toUInt8, UInt16.toNat_mod, UInt16.reduceToNat]
    omega
  | high =>
    refine Value.ext rfl ?_
    show _ = (f.word bank / 256).toUInt8.toNat
    have hlt := (f.word bank).toNat_lt
    simp only [UInt16.toNat_toUInt8, UInt16.toNat_div, UInt16.reduceToNat]
    omega

/-- Every name reads as it does in the word machine. -/
theorem read?_place {p : Program} (hf : Holds p.declarations data registers s f) (name : String) :
    (p.place data registers name).map (View.read s) = (f.read? name).map Cell.value := by
  unfold Program.place WordMachine.read?
  cases Register.ofName? name with
  | some r => exact congrArg some (hf.register r)
  | none => exact hf.cell name

/-- A variable lies inside the block of the variables. -/
theorem inside_variable (hf : Holds ds data registers s f) {name : String} {v : View}
    (hv : find? name (layout data 0 ds) = some v) : v.Inside s ∧ v.handle = data := by
  obtain ⟨hh, -, hstop⟩ := find?_layout_bounds hv
  have hroom := hf.roomData
  refine ⟨?_, hh⟩
  unfold View.Inside
  rw [hh]
  omega

/-- Writing to a register changes its bank, and in it no byte of another half. -/
theorem read_word_patch (hf : Holds ds data registers s f) (r : Register) (z : Int) :
    (Register.view registers ⟨r.bank, .whole⟩).read
        (s.patch registers (r.view registers).offset (Value.ofInt z r.width).bytes) =
      (Cell.word (WordMachine.replace (f.word r.bank) z r.part)).value := by
  rcases r with ⟨bank, part⟩
  have hin := Register.view_inside hf.roomRegisters ⟨bank, part⟩
  have hself := View.read_patch_self (x := Value.ofInt z part.width) hin rfl
  have hlen := Store.length_block_patch (hin.fits (x := Value.ofInt z part.width) rfl) registers
  have hpair := Register.magnitude_read_whole (hlen.symm ▸ hf.roomRegisters) bank
  have hz : ((UInt8.ofInt z).toNat = (z % 256).toNat) :=
    congrArg Value.magnitude (Cell.value_ofInt z .byte)
  have hlt := (f.word bank).toNat_lt
  -- the written part reads as `z`, and the word is put together from it and from the other half
  cases part with
  | whole => exact hself.trans (Cell.value_ofInt z .word).symm
  | low =>
    have hother := View.read_patch_of_disjoint (x := Value.ofInt z Part.low.width) hin rfl
      (Register.halves_disjoint registers bank)
    rw [hf.register] at hother
    refine Value.ext rfl ?_
    refine hpair.trans ?_
    rw [hself, hother]
    show (z % 256).toNat + 256 * (f.word bank / 256).toUInt8.toNat =
      (UInt16.ofNat (256 * ((f.word bank).toNat / 256) + (UInt8.ofInt z).toNat)).toNat
    simp only [UInt16.toNat_toUInt8, UInt16.toNat_div, UInt16.reduceToNat, UInt16.toNat_ofNat', hz]
    omega
  | high =>
    have hother := View.read_patch_of_disjoint (x := Value.ofInt z Part.high.width) hin rfl
      ((View.overlaps_comm _ _).trans (Register.halves_disjoint registers bank))
    rw [hf.register] at hother
    refine Value.ext rfl ?_
    refine hpair.trans ?_
    rw [hself, hother]
    show (f.word bank % 256).toUInt8.toNat + 256 * (z % 256).toNat =
      (UInt16.ofNat (256 * (UInt8.ofInt z).toNat + (f.word bank).toNat % 256)).toNat
    simp only [UInt16.toNat_toUInt8, UInt16.toNat_mod, UInt16.reduceToNat, UInt16.toNat_ofNat', hz]
    omega

/-- A write through the view of a register. -/
theorem patch_register (hf : Holds ds data registers s f) {name : String} {r : Register}
    (hr : Register.ofName? name = some r) (z : Int) :
    Holds ds data registers (s.patch registers (r.view registers).offset (Value.ofInt z r.width).bytes)
      (f.store name z) := by
  have hin := Register.view_inside hf.roomRegisters r
  have hlen := Store.length_block_patch (hin.fits (x := Value.ofInt z r.width) rfl)
  have hstore : f.store name z = { f with
      word := fun bank => if bank = r.bank then WordMachine.replace (f.word bank) z r.part else f.word bank } := by
    unfold WordMachine.store
    rw [hr]
  rw [hstore]
  refine ⟨hf.ne, (hlen data).symm ▸ hf.roomData, (hlen registers).symm ▸ hf.roomRegisters, ?_, ?_⟩
  · intro bank
    by_cases hb : bank = r.bank
    · subst hb
      simp only [if_true]
      exact hf.read_word_patch r z
    · simp only [hb, if_false]
      have hother := View.read_patch_of_disjoint (x := Value.ofInt z r.width) hin rfl
        (Register.view_disjoint registers (q := ⟨bank, .whole⟩) (Ne.symm hb))
      exact hother.trans (hf.word bank)
  · intro n
    rw [← hf.cell n]
    cases hv : find? n (layout data 0 ds) with
    | none => rfl
    | some v =>
      -- variables are in a block of their own
      have hne : (r.view registers).overlaps v = false := by
        rw [View.overlaps_eq_false_iff, (hf.inside_variable hv).2]
        exact Or.inl hf.ne.symm
      have hother := View.read_patch_of_disjoint (x := Value.ofInt z r.width) hin rfl hne
      exact congrArg some hother

/-- A write through the view of a variable. -/
theorem patch_variable (hf : Holds ds data registers s f) {name : String} {v : View}
    (hr : Register.ofName? name = none) (hv : find? name (layout data 0 ds) = some v) (z : Int) :
    Holds ds data registers (s.patch v.handle v.offset (Value.ofInt z v.width).bytes) (f.store name z) := by
  obtain ⟨hin, hh⟩ := hf.inside_variable hv
  have hlen := Store.length_block_patch (hin.fits (x := Value.ofInt z v.width) rfl)
  have hstore : f.store name z = { f with
      cell := fun n => if n = name then (f.cell n).map fun c => Cell.ofInt z c.size else f.cell n } := by
    unfold WordMachine.store
    rw [hr]
  rw [hstore]
  refine ⟨hf.ne, (hlen data).symm ▸ hf.roomData, (hlen registers).symm ▸ hf.roomRegisters, ?_, ?_⟩
  · intro bank
    have hne : v.overlaps (Register.view registers ⟨bank, .whole⟩) = false := by
      rw [View.overlaps_eq_false_iff, hh]
      exact Or.inl hf.ne
    exact (View.read_patch_of_disjoint (x := Value.ofInt z v.width) hin rfl hne).trans (hf.word bank)
  · intro n
    have hcell := hf.cell n
    by_cases hn : n = name
    · subst hn
      rw [hv] at hcell ⊢
      cases hc : f.cell n with
      | none => rw [hc] at hcell; cases hcell
      | some c =>
        rw [hc] at hcell
        -- a variable keeps its size, so `z` is reduced on both sides alike
        have hw : v.width = c.size.width := congrArg Value.width (Option.some.inj hcell)
        simp only [if_true, hc, Option.map_some, Cell.value_ofInt, ← hw]
        exact congrArg some (View.read_patch_self (x := Value.ofInt z v.width) hin rfl)
    · simp only [hn, if_false]
      rw [← hcell]
      cases hv' : find? n (layout data 0 ds) with
      | none => rfl
      | some v' =>
        have hd := find?_layout_disjoint (Ne.symm hn) hv hv'
        exact congrArg some (View.read_patch_of_disjoint (x := Value.ofInt z v.width) hin rfl hd)

/-- **A write through the view of a name is a store under that name.** -/
theorem patch {p : Program} (hf : Holds p.declarations data registers s f) {name : String} {v : View}
    (hv : p.place data registers name = some v) (z : Int) :
    Holds p.declarations data registers (s.patch v.handle v.offset (Value.ofInt z v.width).bytes)
      (f.store name z) := by
  unfold Program.place at hv
  split at hv
  case h_1 r hr =>
    cases hv
    exact hf.patch_register hr z
  case h_2 hr => exact hf.patch_variable hr hv z

end Holds

/-- **Loading encodes the word machine before its first instruction.** -/
theorem Scope.Loaded.holds {p : Program} {before after : Store} {scope : Scope}
    (hl : Scope.Loaded p.declarations before scope after) :
    Holds p.declarations scope.data scope.registers after (WordMachine.start p) := by
  have hdata : after.block scope.data = [] ++ image p.declarations := hl.block_data
  have hregisters := hl.block_registers
  refine ⟨hl.data_ne_registers, ?_, ?_, ?_, ?_⟩
  · exact Nat.le_of_eq (by rw [hdata, List.nil_append, length_image hl.fits])
  · exact Nat.le_of_eq (by rw [hregisters, List.length_replicate])
  · intro bank
    unfold View.read Store.range
    show Value.ofNat (Bytes.toNat (((after.block scope.registers).drop _).take _)) _ = _
    rw [hregisters]
    cases bank <;> rfl
  · intro name
    have hwidth := map_width_find?_layout scope.data name p.declarations 0
    cases hv : find? name (layout scope.data 0 p.declarations) with
    | none =>
      rw [hv] at hwidth
      have hnone : (p.declarations.find? fun d => d.name == name) = none := by
        simpa using hwidth.symm
      simp only [WordMachine.start, hnone, Option.map_none]
    | some v =>
      obtain ⟨d, hd, hread⟩ := read_layout hl.fits hdata hv
      have hfits : d.value.width = d.size.width := hl.fits d (List.mem_of_find?_eq_some hd)
      simp only [WordMachine.start, hd, Option.map_some, hread, Cell.value_ofInt, ← hfits,
        Value.ofInt_magnitude]

end Octet
