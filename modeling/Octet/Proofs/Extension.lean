import Mathlib.Data.Int.ModEq
import Octet.Proofs.Partition
import Octet.Proofs.Placement
import Octet.Proofs.Residues
import Octet.Proofs.Runs

/-!
# Sign extension

An extension keeps the signed reading, and it keeps the bytes: the wider value has the old bytes below and the
sign above, all ones or all zeros. The two instructions that extend a register do so in place. `cbw` writes the
wide value over its own low half, and `cwd` leaves the low half where it is and writes the sign into `dx`.

* `Value.signed_cases`: the signed reading is the magnitude, or the magnitude less the modulus.
* `Value.signed_extended`: **an extension keeps the signed reading.**
* `Value.split_extended`: **an extension has the value below and its sign above.**
* `Attached.step_cbw`, `Attached.step_cwd`: the registers after each of the two instructions.
* `sign_extension`: **extensions of values, and what `cbw` and `cwd` make of the registers.**
-/

namespace Octet

namespace Value

/-- The signed reading is the magnitude, or the magnitude less the modulus if that is negative. -/
theorem signed_cases (v : Value) :
    (0 ≤ v.signed ∧ v.signed = v.magnitude) ∨ (v.signed < 0 ∧ v.signed = v.magnitude - v.width.modulus) := by
  have hlt : (v.magnitude : Int) < v.width.modulus := Int.ofNat_lt.2 v.lt_modulus
  have hmod : (v.magnitude : Int) % v.width.modulus = v.magnitude :=
    Int.emod_eq_of_lt (Int.natCast_nonneg _) hlt
  unfold signed
  rw [Int.bmod_def, hmod]
  split <;> omega

/-- **A wider range contains the signed reading**, so the reading reads itself there. -/
theorem reads_signed {v : Value} {w : Width} (h : v.width.bytes ≤ w.bytes) : w.Reads v.signed v.signed := by
  have hreads := v.reads_magnitude
  have hpow : (2 : Int) ^ (8 * v.width.bytes - 1) ≤ 2 ^ (8 * w.bytes - 1) := by
    exact_mod_cast Nat.pow_le_pow_right (n := 2) (by decide) (by omega)
  refine ⟨?_, ?_, Int.ModEq.refl _⟩
  · have := hreads.lower
    omega
  · have := hreads.upper
    omega

/-- **An extension keeps the signed reading.** -/
theorem signed_extended {v : Value} {w : Width} (h : v.width.bytes ≤ w.bytes) : (ofInt v.signed w).signed = v.signed :=
  (reads_ofInt v.signed w).unique (reads_signed h)

/-- What two extensions in a row give, the second one gives at once. -/
theorem extend_extended {v : Value} {w : Width} (h : v.width.bytes ≤ w.bytes) {n : Nat} (hn : w.bytes ≤ n) :
    (ofInt v.signed w).extend n = v.extend n := by
  unfold extend
  rw [signed_extended h, width_ofInt, if_neg (by omega), if_neg (by omega)]

/-- The sign of a value in a width of its own: all ones or all zeros. -/
def fill (v : Value) (u : Width) : Value :=
  ofInt (if v.signed < 0 then -1 else 0) u

end Value

theorem Bytes.toNat_replicate_ones (n : Nat) : toNat (List.replicate n 0xFF) = 256 ^ n - 1 := by
  induction n with
  | zero => rfl
  | succ n ih =>
    have hpos : 0 < 256 ^ n := Nat.pow_pos (by decide)
    have hones : (0xFF : UInt8).toNat = 255 := rfl
    rw [List.replicate_succ, toNat, ih, hones, pow_succ]
    omega

theorem Bytes.toNat_replicate_zeros (n : Nat) : toNat (List.replicate n 0) = 0 := by
  induction n with
  | zero => rfl
  | succ n ih => rw [List.replicate_succ, toNat, ih]; rfl

namespace Value

theorem magnitude_fill (v : Value) (u : Width) : (v.fill u).magnitude = if v.signed < 0 then u.modulus - 1 else 0 := by
  have hpos := u.modulus_pos
  have hmagnitude := magnitude_ofInt (if v.signed < 0 then -1 else 0) u
  unfold fill
  by_cases hsign : v.signed < 0
  · rw [if_pos hsign] at hmagnitude ⊢
    rw [if_pos hsign]
    have hones : (-1 : Int) % u.modulus = u.modulus - 1 := by
      rw [← Int.add_emod_right, Int.emod_eq_of_lt] <;> omega
    omega
  · rw [if_neg hsign] at hmagnitude ⊢
    rw [if_neg hsign]
    rw [Int.zero_emod] at hmagnitude
    omega

/-- The bytes of a sign. -/
theorem bytes_fill (v : Value) (u : Width) :
    (v.fill u).bytes = List.replicate u.bytes (if v.signed < 0 then 0xFF else 0) := by
  apply Bytes.toNat_injective
  · rw [length_bytes, List.length_replicate]
    rfl
  · rw [toNat_bytes, magnitude_fill]
    by_cases hsign : v.signed < 0
    · rw [if_pos hsign, if_pos hsign, Bytes.toNat_replicate_ones]
      rfl
    · rw [if_neg hsign, if_neg hsign, Bytes.toNat_replicate_zeros]

/-- The magnitude of an extension: the value in the low bytes and its sign in the others. -/
theorem magnitude_extended {v : Value} {w u : Width} (h : w.bytes = v.width.bytes + u.bytes) :
    (ofInt v.signed w).magnitude = v.magnitude + v.width.modulus * (v.fill u).magnitude := by
  have hmodulus : w.modulus = v.width.modulus * u.modulus := by
    unfold Width.modulus
    rw [h]
    exact pow_add 256 _ _
  have hlt : v.magnitude < v.width.modulus := v.lt_modulus
  have hpos : 0 < u.modulus := u.modulus_pos
  have hmagnitude : ((ofInt v.signed w).magnitude : Int) = v.signed % w.modulus := magnitude_ofInt v.signed w
  rw [magnitude_fill]
  rcases v.signed_cases with ⟨hsign, hsigned⟩ | ⟨hsign, hsigned⟩
  · have hle : v.width.modulus ≤ w.modulus := hmodulus ▸ Nat.le_mul_of_pos_right _ hpos
    have hmod : v.signed % w.modulus = v.magnitude := by
      rw [hsigned, Int.emod_eq_of_lt (by omega) (by omega)]
    rw [if_neg (by omega), Nat.mul_zero]
    omega
  · -- adding the wide modulus once makes the reading a remainder
    have hones : v.width.modulus * (u.modulus - 1) + v.width.modulus = w.modulus := by
      rw [hmodulus, ← Nat.mul_succ, Nat.succ_eq_add_one, Nat.sub_add_cancel hpos]
    have hmod : v.signed % w.modulus = v.magnitude - v.width.modulus + w.modulus := by
      rw [hsigned, ← Int.add_emod_right, Int.emod_eq_of_lt (by omega) (by omega)]
    rw [if_pos hsign]
    omega

/-- **An extension has the value below and its sign above.** -/
theorem split_extended {v : Value} {w u : Width} (h : w.bytes = v.width.bytes + u.bytes) :
    (ofInt v.signed w).split [v.width.bytes, u.bytes] = .ok [v, v.fill u] := by
  have hlow : ofNat (v.magnitude + v.width.modulus * (v.fill u).magnitude) v.width = v := by
    refine ext rfl ?_
    show (v.magnitude + v.width.modulus * (v.fill u).magnitude) % v.width.modulus = v.magnitude
    rw [Nat.add_mul_mod_self_left, Nat.mod_eq_of_lt v.lt_modulus]
  have hhigh : (v.magnitude + v.width.modulus * (v.fill u).magnitude) / v.width.modulus = (v.fill u).magnitude := by
    rw [Nat.add_mul_div_left _ _ v.width.modulus_pos, Nat.div_eq_of_lt v.lt_modulus, Nat.zero_add]
  have hfill : ofNat (v.fill u).magnitude u = v.fill u := (v.fill u).ofNat_magnitude
  refine split_eq_ok_iff.2 ⟨[v.width, u], rfl, h.symm, ?_⟩
  rw [magnitude_extended h, cut, cut, cut, hlow, hhigh, hfill]

/-- **Too few bytes are refused, and so are too many**, each for a reason of its own. -/
theorem extend_error_iff (v : Value) (n : Nat) :
    (v.extend n = .error (.invalidExtension v.width.bytes n) ↔ n < v.width.bytes) ∧
      (v.extend n = .error (.invalidWidth n) ↔ v.width.bytes ≤ n ∧ 8 < n) := by
  have hpos := v.width.pos
  have hle := v.width.le_eight
  by_cases hn : n < v.width.bytes
  · have herror : v.extend n = .error (.invalidExtension v.width.bytes n) := if_pos hn
    rw [herror]
    refine ⟨by simp [hn], by simp; omega⟩
  · have hmake : v.extend n = make v.signed n := if_neg hn
    by_cases hwide : 8 < n
    · have herror : v.extend n = .error (.invalidWidth n) := by
        rw [hmake]
        unfold make
        rw [Width.ofNat_eq, dif_neg (by omega)]
        rfl
      rw [herror]
      refine ⟨by simp [hn], by simp; omega⟩
    · have hok := extend_bytes (v := v) (w := ⟨n, by omega, by omega⟩) (Nat.not_lt.1 hn)
      rw [hok]
      refine ⟨by simp [hn], by simp [hwide]⟩

end Value

/-- The upper half of an extended word is its sign. -/
theorem Machine.upperHalf_eq_fill {x : Value} (hx : x.width = Width.word) :
    Machine.upperHalf x = .ok (x.fill Width.word) := by
  have hextend : x.extend 4 = .ok (Value.ofInt x.signed Width.dword) :=
    Value.extend_bytes (w := Width.dword) (by rw [hx]; decide)
  have hsplit : (Value.ofInt x.signed Width.dword).split [2, 2] = .ok [x, x.fill Width.word] := by
    have := Value.split_extended (v := x) (w := Width.dword) (u := Width.word) (by rw [hx]; rfl)
    rw [hx] at this
    exact this
  unfold Machine.upperHalf
  rw [hextend, ok_bind, hsplit]
  rfl

/-- A machine that writes through, with every register in its place. -/
structure Attached (p : Program) (data registers : Handle) (s : State) : Prop where
  mode : s.machine.settings.cwdMode = .writeThrough
  placed : Placed p data registers (Register.dx.view registers) s

theorem Attached.rebinds_eq_false {p : Program} {data registers : Handle} {s : State}
    (hs : Attached p data registers s) (i : Instruction) : s.machine.rebinds i = false := by
  unfold Machine.rebinds
  rw [hs.mode]
  exact Bool.and_false _

theorem attached_stable (p : Program) (data registers : Handle) : Stable (Attached p data registers) where
  log s log hs := ⟨hs.mode, hs.placed.congr rfl rfl⟩
  assign s name x hs ha := by
    refine ⟨?_, hs.placed.assign ha⟩
    rw [State.machine_assign]
    exact hs.mode
  execute s i x hs _ hx := by
    obtain ⟨v, hplaced, hkeep, -⟩ := hs.placed.deliver hx
    rw [hkeep (hs.rebinds_eq_false i)] at hplaced
    refine ⟨?_, hplaced.retired i⟩
    show (s.deliver i x).machine.settings.cwdMode = .writeThrough
    rw [(Machine.deliver_settings s i x).1]
    exact hs.mode

namespace Attached

variable {p : Program} {data registers : Handle} {s t : State} {i : Instruction}

theorem read (hs : Attached p data registers s) (r : Register) :
    s.machine.read s.store r.name = .ok ((r.view registers).read s.store) :=
  hs.placed.read_register (Or.inr rfl)

/-- A step gives its target what its instruction computes, and leaves the registers of other banks alone. -/
theorem step_writes (hs : Attached p data registers s) (hst : Machine.step.run s = .ok () t)
    (hi : s.machine.current? = some i) {r : Register} (hr : i.target = r.name) :
    ∃ x, s.machine.compute s.store i = .ok x ∧ (r.view registers).read t.store = x ∧
      ∀ q : Register, r.bank ≠ q.bank → (q.view registers).read t.store = (q.view registers).read s.store := by
  obtain ⟨j, x, hj, hx, rfl⟩ := Machine.step_ok hst
  rw [hi] at hj
  cases hj
  have hlookup : s.machine.scope.lookup? i.target = some (r.view registers) := by
    rw [hr]
    by_cases hdx : r = Register.dx
    · rw [hdx, hs.placed.lookup_dx]
    · exact hs.placed.lookup_register hdx
  have hinside := Register.view_inside hs.placed.roomRegisters r
  rw [Machine.attempt_of_not_rebinds (hs.rebinds_eq_false i)] at hx
  obtain ⟨y, hy, hx⟩ := exists_of_bind_eq_ok hx
  obtain ⟨⟨⟩, hadmit, hx⟩ := exists_of_bind_eq_ok hx
  cases hx
  obtain ⟨u, hu, hw⟩ := Scope.admit_ok hadmit
  rw [hlookup] at hu
  cases hu
  have hstore : (((s.announced i).deliver i x).retired i).store =
      s.store.patch (r.view registers).handle (r.view registers).offset x.bytes := by
    show ((s.announced i).deliver i x).store = _
    unfold State.deliver
    rw [State.machine_announced, hs.rebinds_eq_false i, if_neg Bool.false_ne_true,
      State.store_assign (v := r.view registers), State.store_announced]
    rw [State.machine_announced, hlookup]
  rw [hstore]
  refine ⟨x, hy, View.read_patch_self hinside hw, ?_⟩
  intro q hq
  exact View.read_patch_of_disjoint hinside hw (Register.view_disjoint registers hq)

theorem compute_cbw (hs : Attached p data registers s) :
    s.machine.compute s.store .cbw =
      .ok (Value.ofInt ((Register.al.view registers).read s.store).signed Width.word) := by
  have hread := hs.read .al
  unfold Machine.read at hread
  unfold Machine.compute
  rw [hread, ok_bind]
  exact Value.extend_bytes (w := Width.word) (by decide : 1 ≤ 2)

theorem compute_cwd (hs : Attached p data registers s) :
    s.machine.compute s.store .cwd = .ok (((Register.ax.view registers).read s.store).fill Width.word) := by
  have hread := hs.read .ax
  unfold Machine.read at hread
  unfold Machine.compute
  rw [hread, ok_bind]
  exact Machine.upperHalf_eq_fill rfl

/-- **`cbw` extends in place**: `ax` has the signed reading that `al` has, and `al` is what it was. -/
theorem step_cbw (hs : Attached p data registers s) (hst : Machine.step.run s = .ok () t)
    (hi : s.machine.current? = some .cbw) :
    ((Register.ax.view registers).read t.store).signed = ((Register.al.view registers).read t.store).signed ∧
      (Register.al.view registers).read t.store = (Register.al.view registers).read s.store := by
  have ht := (attached_stable p data registers).step_ok hs hst
  obtain ⟨x, hx, hax, -⟩ := hs.step_writes hst hi (r := .ax) rfl
  rw [hs.compute_cbw] at hx
  cases hx
  have hkeep : (Register.al.view registers).read t.store = (Register.al.view registers).read s.store := by
    refine Value.ext rfl ?_
    -- `ax` is made of its halves now, and of `al` and its sign by the extension
    have hhalves : ((Register.ax.view registers).read t.store).magnitude =
        ((Register.al.view registers).read t.store).magnitude +
          256 * ((Register.view registers ⟨.a, .high⟩).read t.store).magnitude :=
      Register.magnitude_read_whole ht.placed.roomRegisters .a
    have hsign : ((Register.ax.view registers).read t.store).magnitude =
        ((Register.al.view registers).read s.store).magnitude +
          256 * (((Register.al.view registers).read s.store).fill Width.byte).magnitude := by
      rw [hax]
      exact Value.magnitude_extended rfl
    have hnew : ((Register.al.view registers).read t.store).magnitude < 256 :=
      Register.magnitude_read_half_lt registers t.store .a (by decide)
    have hold : ((Register.al.view registers).read s.store).magnitude < 256 :=
      Register.magnitude_read_half_lt registers s.store .a (by decide)
    omega
  refine ⟨?_, hkeep⟩
  rw [hax, hkeep]
  exact Value.signed_extended (by decide : 1 ≤ 2)

/-- **`cwd` extends into a pair**: `dx` and `ax` together have the signed reading of `ax`, and `ax` is what it
was. -/
theorem step_cwd (hs : Attached p data registers s) (hst : Machine.step.run s = .ok () t)
    (hi : s.machine.current? = some .cwd) :
    (Register.ax.view registers).read t.store = (Register.ax.view registers).read s.store ∧
      ∃ wide, Value.make (((Register.dx.view registers).read t.store).magnitude * 65536 +
          ((Register.ax.view registers).read t.store).magnitude) 4 = .ok wide ∧
        wide.signed = ((Register.ax.view registers).read t.store).signed := by
  obtain ⟨x, hx, hdx, hother⟩ := hs.step_writes hst hi (r := .dx) rfl
  rw [hs.compute_cwd] at hx
  cases hx
  have hax := hother .ax (by decide)
  refine ⟨hax, ?_⟩
  rw [hdx, hax]
  generalize hword : (Register.ax.view registers).read s.store = ax
  have hwidth : ax.width = Width.word := by rw [← hword]; rfl
  have hmodulus : ax.width.modulus = 65536 := by rw [hwidth]; rfl
  have hmagnitude : (Value.ofInt ax.signed Width.dword).magnitude =
      ax.magnitude + ax.width.modulus * (ax.fill Width.word).magnitude :=
    Value.magnitude_extended (by rw [hwidth]; rfl)
  have hsum : ((ax.fill Width.word).magnitude * 65536 + ax.magnitude : Int) =
      (Value.ofInt ax.signed Width.dword).magnitude := by
    rw [hmodulus] at hmagnitude
    omega
  refine ⟨Value.ofInt ax.signed Width.dword, ?_, Value.signed_extended (by rw [hwidth]; decide)⟩
  rw [hsum]
  exact Value.make_magnitude _

end Attached

/-- **Extensions, of values and of registers.** A value is extended to any number of bytes from its own to eight
and refused otherwise. The result has the signed reading of the value, extending it further is extending the
value, and its bytes are those of the value with all ones or all zeros above them. In every machine that writes
through, also in the middle of a run, an executed `cwd` leaves `dx` and `ax` with the signed reading of `ax`, and
an executed `cbw` leaves `ax` with the signed reading of `al`; neither changes what it extends. -/
theorem sign_extension :
    (∀ (v : Value) (n : Nat),
      (v.extend n = .error (.invalidExtension v.width.bytes n) ↔ n < v.width.bytes) ∧
      (v.extend n = .error (.invalidWidth n) ↔ v.width.bytes ≤ n ∧ 8 < n) ∧
      (v.width.bytes ≤ n → n ≤ 8 → ∃ r, v.extend n = .ok r ∧ r.width.bytes = n ∧ r.signed = v.signed ∧
        (∀ k, n ≤ k → k ≤ 8 → ∃ x, v.extend k = .ok x ∧ r.extend k = .ok x) ∧
        (v.width.bytes < n → ∃ fill, r.split [v.width.bytes, n - v.width.bytes] = .ok [v, fill] ∧
          fill.bytes = List.replicate (n - v.width.bytes) (if v.signed < 0 then 0xFF else 0)))) ∧
    ∀ (p : Program) (settings : Settings) (w w' : World) (m : Machine),
      (Machine.load p settings).run w = .ok m w' → settings.cwdMode = .writeThrough →
      ∀ s, Reaches ⟨w', m⟩ s → ∀ k u t, Machine.Steps k s u → Machine.step.run u = .ok () t →
        (u.machine.current? = some .cwd → ∃ ax dx wide,
          t.machine.read t.store "ax" = .ok ax ∧ t.machine.read t.store "dx" = .ok dx ∧
          Value.make (dx.magnitude * 65536 + ax.magnitude) 4 = .ok wide ∧ wide.signed = ax.signed ∧
          u.machine.read u.store "ax" = .ok ax) ∧
        (u.machine.current? = some .cbw → ∃ ax al,
          t.machine.read t.store "ax" = .ok ax ∧ t.machine.read t.store "al" = .ok al ∧
          ax.signed = al.signed ∧ u.machine.read u.store "al" = .ok al) := by
  refine ⟨?_, ?_⟩
  · intro v n
    obtain ⟨hnarrow, hwide⟩ := v.extend_error_iff n
    refine ⟨hnarrow, hwide, ?_⟩
    intro hle hle8
    have hpos := v.width.pos
    let w : Width := ⟨n, by omega, hle8⟩
    refine ⟨Value.ofInt v.signed w, Value.extend_bytes (w := w) hle, rfl, Value.signed_extended (w := w) hle, ?_, ?_⟩
    · intro k hk hk8
      have hk' := Value.extend_bytes (v := v) (w := ⟨k, by omega, hk8⟩) (Nat.le_trans hle hk)
      exact ⟨_, hk', (Value.extend_extended (w := w) hle hk).trans hk'⟩
    · intro hlt
      let u : Width := ⟨n - v.width.bytes, by omega, by omega⟩
      have hbytes : w.bytes = v.width.bytes + u.bytes := (Nat.add_sub_cancel' hle).symm
      exact ⟨v.fill u, Value.split_extended hbytes, v.bytes_fill u⟩
  · intro p settings w w' m hload hmode s hs k u t hsteps hst
    obtain ⟨scope, rfl, hl⟩ := Machine.load_ok hload
    have hstable := attached_stable p scope.data scope.registers
    have hu := hsteps.invariant hstable (hs.invariant hstable ⟨hmode, hl.placed⟩)
    have ht := hstable.step_ok hu hst
    refine ⟨?_, ?_⟩
    · intro hi
      obtain ⟨hkeep, wide, hmake, hsigned⟩ := hu.step_cwd hst hi
      exact ⟨_, _, wide, ht.read .ax, ht.read .dx, hmake, hsigned, hkeep ▸ hu.read .ax⟩
    · intro hi
      obtain ⟨hsigned, hkeep⟩ := hu.step_cbw hst hi
      exact ⟨_, _, ht.read .ax, ht.read .al, hsigned, hkeep ▸ hu.read .al⟩

/-- A program that extends the least byte twice, over a high half that is lost. -/
def Program.widened : Program where
  declarations := []
  code := [.binary .mov "ax" (.literal 0x7F80), .cbw, .cwd]

/-- In three bytes the least byte has two bytes of ones above it. A run that stops at its bound is between `cbw`
and `cwd`; the last step leaves `dx` and `ax` with the reading of `ax`, which is negative. -/
theorem sign_extension_least :
    (∃ r fill, (Value.ofInt (-128) .byte).extend 3 = .ok r ∧
      r.split [1, 2] = .ok [.ofInt (-128) .byte, fill] ∧ fill.bytes = [0xFF, 0xFF]) ∧
    ∃ m w', (Machine.load Program.widened ⟨false, some 1, .writeThrough⟩).run .empty = .ok m w' ∧
      let s := (session State.perform ⟨w', m⟩ [.run]).2
      ∃ u t, Machine.Steps 1 s u ∧ Machine.step.run u = .ok () t ∧
        (∃ ax dx wide, t.machine.read t.store "ax" = .ok ax ∧ t.machine.read t.store "dx" = .ok dx ∧
          Value.make (dx.magnitude * 65536 + ax.magnitude) 4 = .ok wide ∧ wide.signed = ax.signed ∧
          u.machine.read u.store "ax" = .ok ax) ∧
        u.machine.read u.store "ax" = .ok (.ofInt (-128) .word) := by
  refine ⟨?_, ?_⟩
  · obtain ⟨r, hr, -, -, -, hsplit⟩ := (sign_extension.1 (.ofInt (-128) .byte) 3).2.2 (by decide) (by decide)
    obtain ⟨fill, hsplit, hfill⟩ := hsplit (by decide)
    exact ⟨r, fill, hr, hsplit, hfill⟩
  · refine ⟨_, _, rfl, ?_⟩
    intro s
    have hcbw : Machine.Steps 1 s _ := .succ rfl (.zero _)
    refine ⟨_, _, hcbw, rfl, ?_, by decide +kernel⟩
    exact (sign_extension.2 Program.widened ⟨false, some 1, .writeThrough⟩ .empty _ _ rfl rfl s ⟨[.run], rfl⟩ 1 _ _ hcbw
      rfl).1 rfl

end Octet
