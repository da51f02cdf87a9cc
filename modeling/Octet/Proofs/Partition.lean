import Mathlib.Data.List.SplitLengths
import Octet.Proofs.Splitting

/-!
# Bytes of a value and their groups

A value is encoded by dividing, decoded by multiplying and cut by dividing in larger steps. The three agree: the
parts of a value are what the groups of its bytes decode to, and cutting the parts again is cutting the value into
all the smaller parts at once.

* `Value.ofBytes_bytes`, `Value.ofBytes_of_length`: encoding and decoding undo each other.
* `Value.map_bytes_cut`: **the bytes of the parts are the groups of the bytes.**
* `Value.cut_flatten`: **cutting the parts is cutting the whole.**
* `Value.split_groups`: **bytes, values and parts.**
-/

namespace Octet

namespace Bytes

/-- The low bytes of a number do not depend on what is above them. -/
theorem ofNat_mod (n m : Nat) : ofNat n (m % 256 ^ n) = ofNat n m := by
  apply toNat_injective
  · rw [length_ofNat, length_ofNat]
  · rw [toNat_ofNat, toNat_ofNat]
    exact Nat.mod_mod m (256 ^ n)

/-- The bytes above the `a` low ones are those of the quotient. -/
theorem ofNat_add (a b : Nat) : ∀ m : Nat, ofNat (a + b) m = ofNat a m ++ ofNat b (m / 256 ^ a) := by
  induction a with
  | zero => intro m; simp [ofNat]
  | succ a ih =>
    intro m
    have hdiv : m / 256 / 256 ^ a = m / 256 ^ (a + 1) := by
      rw [Nat.div_div_eq_div_mul, Nat.pow_succ, Nat.mul_comm]
    rw [Nat.add_right_comm, ofNat, ih, hdiv, ofNat, List.cons_append]

end Bytes

namespace Value

/-- **Decoding undoes encoding.** -/
theorem ofBytes_bytes (v : Value) : ofBytes v.bytes = .ok v := by
  unfold ofBytes
  rw [length_bytes, toNat_bytes, Width.ofNat_bytes]
  exact congrArg Except.ok v.ofNat_magnitude

/-- **Encoding undoes decoding**, of one to eight bytes. -/
theorem ofBytes_of_length {bs : List UInt8} (hpos : 0 < bs.length) (hle : bs.length ≤ 8) :
    ∃ v, ofBytes bs = .ok v ∧ v.bytes = bs := by
  have hlength : bs.length = (Width.mk bs.length hpos hle).bytes := rfl
  obtain ⟨v, -, hv⟩ := exists_bytes hlength
  refine ⟨v, ?_, hv⟩
  rw [← hv, ofBytes_bytes]

theorem ofBytes_error {bs : List UInt8} (h : bs.length = 0 ∨ 8 < bs.length) :
    ofBytes bs = .error (.invalidWidth bs.length) := by
  unfold ofBytes
  rw [Width.ofNat_eq, dif_neg (by omega)]
  rfl

theorem bytes_ofNat (m : Nat) (w : Width) : (ofNat m w).bytes = Bytes.ofNat w.bytes m :=
  Bytes.ofNat_mod w.bytes m

/-- **The bytes of the parts are the groups of the bytes.** -/
theorem map_bytes_cut (ws : List Width) : ∀ m : Nat,
    (cut m ws).map bytes = (ws.map Width.bytes).splitLengths (Bytes.ofNat (Width.total ws) m) := by
  induction ws with
  | nil => intro m; rfl
  | cons w ws ih =>
    intro m
    have hfirst : (Bytes.ofNat w.bytes m).length = w.bytes := Bytes.length_ofNat w.bytes m
    rw [cut, List.map_cons, List.map_cons, Width.total, Bytes.ofNat_add, List.splitLengths_cons, bytes_ofNat, ih,
      List.take_left' hfirst, List.drop_left' hfirst]
    rfl

/-- A number that is cut twice is cut by the low parts and its quotient by the others. -/
theorem cut_append (ws us : List Width) : ∀ m : Nat,
    cut m (ws ++ us) = cut m ws ++ cut (m / 256 ^ Width.total ws) us := by
  induction ws with
  | nil => intro m; simp [cut, Width.total]
  | cons w ws ih =>
    intro m
    have hdiv : m / w.modulus / 256 ^ Width.total ws = m / 256 ^ (w.bytes + Width.total ws) := by
      rw [Nat.div_div_eq_div_mul, Nat.pow_add]
      rfl
    rw [List.cons_append, cut, ih, hdiv, cut, List.cons_append, Width.total]

/-- The parts of a number do not depend on what is above them. -/
theorem cut_mod (ws : List Width) : ∀ m : Nat, cut (m % 256 ^ Width.total ws) ws = cut m ws := by
  induction ws with
  | nil => intro m; rfl
  | cons w ws ih =>
    intro m
    have hpow : 256 ^ Width.total (w :: ws) = w.modulus * 256 ^ Width.total ws := by
      rw [Width.total, Nat.pow_add]
      rfl
    have hfirst : ofNat (m % (w.modulus * 256 ^ Width.total ws)) w = ofNat m w :=
      ext rfl (Nat.mod_mul_right_mod m w.modulus (256 ^ Width.total ws))
    rw [cut, hpow, hfirst, Nat.mod_mul_right_div_self, ih, cut]

/-- **Cutting the parts of a number is cutting the number** into all the smaller parts. -/
theorem cut_flatten (cuts : List (List Width)) : ∀ (ws : List Width) (m : Nat),
    ws.map Width.bytes = cuts.map Width.total →
      (List.zipWith (fun p c => cut p.magnitude c) (cut m ws) cuts).flatten = cut m cuts.flatten := by
  induction cuts with
  | nil => intro ws m h; simp [cut]
  | cons c cuts ih =>
    intro ws m h
    cases ws with
    | nil => cases h
    | cons w ws =>
      rw [List.map_cons, List.map_cons, List.cons.injEq] at h
      obtain ⟨hw, hws⟩ := h
      have hmodulus : w.modulus = 256 ^ Width.total c := by
        rw [← hw]
        rfl
      have hfirst : cut (ofNat m w).magnitude c = cut m c := by
        show cut (m % w.modulus) c = cut m c
        rw [hmodulus, cut_mod]
      rw [cut, List.zipWith_cons_cons, List.flatten_cons, List.flatten_cons, cut_append, ih ws _ hws, hfirst, hmodulus]

/-- Which sizes split a value. -/
theorem exists_split_iff {v : Value} {sizes : List Nat} :
    (∃ parts, v.split sizes = .ok parts) ↔ v.width.Cuts sizes := by
  unfold split
  constructor
  · rintro ⟨parts, h⟩
    by_contra hcuts
    rw [Width.parts_of_not_cuts hcuts] at h
    cases h
  · intro hcuts
    obtain ⟨ws, hws, -⟩ := Width.parts_of_cuts hcuts
    exact ⟨cut v.magnitude ws, by rw [hws]; rfl⟩

/-- **What splitting gives**: the parts of the magnitude, for widths that fill the value. -/
theorem split_eq_ok_iff {v : Value} {sizes : List Nat} {parts : List Value} :
    v.split sizes = .ok parts ↔
      ∃ ws : List Width, ws.map Width.bytes = sizes ∧ Width.total ws = v.width.bytes ∧ parts = cut v.magnitude ws := by
  constructor
  · intro h
    have hcuts := exists_split_iff.1 ⟨parts, h⟩
    obtain ⟨ws, hws, hsizes⟩ := Width.parts_of_cuts hcuts
    unfold split at h
    rw [hws] at h
    refine ⟨ws, hsizes, ?_, (Except.ok.inj h).symm⟩
    rw [Width.total_eq_sum, hsizes]
    exact hcuts.2
  · rintro ⟨ws, rfl, htotal, rfl⟩
    unfold split Width.parts
    rw [Width.mapM_ofNat?_bytes]
    show Except.map _ (if Width.total ws = v.width.bytes then _ else _) = _
    rw [if_pos htotal]
    rfl

theorem map_bytes_split {v : Value} {sizes : List Nat} {parts : List Value} (h : v.split sizes = .ok parts) :
    parts.map bytes = sizes.splitLengths v.bytes := by
  obtain ⟨ws, hsizes, htotal, rfl⟩ := split_eq_ok_iff.1 h
  rw [map_bytes_cut, hsizes, htotal]
  rfl

theorem map_width_cut (ws : List Width) : ∀ m : Nat, (cut m ws).map width = ws := by
  induction ws with
  | nil => intro m; rfl
  | cons w ws ih => intro m; rw [cut, List.map_cons, ih]; rfl

/-- Values that are split one by one are cut by widths that fill each of them. -/
theorem exists_widths_of_zipWith_split (parts : List Value) : ∀ (cuts : List (List Nat)) (pieces : List (List Value)),
    cuts.length = parts.length → List.zipWith split parts cuts = pieces.map .ok →
      ∃ wss : List (List Width), wss.map (List.map Width.bytes) = cuts ∧
        (parts.map width).map Width.bytes = wss.map Width.total ∧
        pieces = List.zipWith (fun p c => cut p.magnitude c) parts wss := by
  induction parts with
  | nil =>
    intro cuts pieces hlength hsplit
    have hcuts : cuts = [] := List.eq_nil_of_length_eq_zero hlength
    have hpieces : pieces = [] := List.map_eq_nil_iff.1 hsplit.symm
    subst hcuts hpieces
    exact ⟨[], rfl, rfl, rfl⟩
  | cons p parts ih =>
    intro cuts pieces hlength hsplit
    cases cuts with
    | nil => cases hlength
    | cons c cuts =>
      cases pieces with
      | nil => cases hsplit
      | cons piece pieces =>
        rw [List.zipWith_cons_cons, List.map_cons, List.cons.injEq] at hsplit
        obtain ⟨hfirst, hrest⟩ := hsplit
        obtain ⟨ws, rfl, htotal, rfl⟩ := split_eq_ok_iff.1 hfirst
        obtain ⟨wss, rfl, hwss, rfl⟩ := ih cuts pieces (Nat.succ.inj hlength) hrest
        refine ⟨ws :: wss, rfl, ?_, rfl⟩
        rw [List.map_cons, List.map_cons, List.map_cons, htotal, hwss]

/-- **Splitting the parts is splitting the value** by all the sizes. -/
theorem split_flatten {v : Value} {sizes : List Nat} {parts : List Value} (h : v.split sizes = .ok parts)
    {cuts : List (List Nat)} {pieces : List (List Value)} (hlength : cuts.length = parts.length)
    (hsplit : List.zipWith split parts cuts = pieces.map .ok) : v.split cuts.flatten = .ok pieces.flatten := by
  obtain ⟨ws, -, htotal, rfl⟩ := split_eq_ok_iff.1 h
  obtain ⟨wss, rfl, hwss, rfl⟩ := exists_widths_of_zipWith_split _ cuts pieces hlength hsplit
  rw [map_width_cut] at hwss
  refine split_eq_ok_iff.2 ⟨wss.flatten, List.map_flatten, ?_, cut_flatten wss ws v.magnitude hwss⟩
  have hsum : Width.total wss.flatten = (wss.map Width.total).sum := by
    rw [Width.total_eq_sum, List.map_flatten, List.sum_flatten, List.map_map]
    exact congrArg List.sum (List.map_congr_left fun c _ => (Width.total_eq_sum c).symm)
  rw [hsum, ← hwss, ← Width.total_eq_sum, htotal]

/-- **Bytes, values and parts.** The bytes of a value are as many as its width says and decode to it; one to eight
bytes are those of the value that they decode to, and no other number of bytes is decoded. Sizes split a value if
none is zero and they add up to its width. The parts are then what the consecutive groups of the bytes decode to,
their bytes joined are those of the value, and splitting them further is splitting the value by all the sizes. -/
theorem split_groups :
    (∀ v : Value, v.bytes.length = v.width.bytes ∧ ofBytes v.bytes = .ok v) ∧
    (∀ bs : List UInt8, 1 ≤ bs.length → bs.length ≤ 8 → ∃ v, ofBytes bs = .ok v ∧ v.bytes = bs) ∧
    (∀ bs : List UInt8, bs.length = 0 ∨ 8 < bs.length → ofBytes bs = .error (.invalidWidth bs.length)) ∧
    ∀ (v : Value) (sizes : List Nat),
      ((∃ parts, v.split sizes = .ok parts) ↔ 0 ∉ sizes ∧ sizes.sum = v.width.bytes) ∧
      ∀ parts, v.split sizes = .ok parts →
        (sizes.splitLengths v.bytes).map ofBytes = parts.map .ok ∧
        parts.flatMap bytes = v.bytes ∧
        ∀ (cuts : List (List Nat)) (pieces : List (List Value)), cuts.length = parts.length →
          List.zipWith split parts cuts = pieces.map .ok → v.split cuts.flatten = .ok pieces.flatten := by
  refine ⟨fun v => ⟨v.length_bytes, v.ofBytes_bytes⟩, fun bs => ofBytes_of_length, fun bs => ofBytes_error, ?_⟩
  intro v sizes
  refine ⟨exists_split_iff, ?_⟩
  intro parts h
  have hbytes := map_bytes_split h
  have hsum : v.bytes.length ≤ sizes.sum := by
    rw [v.length_bytes, (exists_split_iff.1 ⟨parts, h⟩).2]
  refine ⟨?_, ?_, fun cuts pieces => split_flatten h⟩
  · rw [← hbytes, List.map_map]
    exact List.map_congr_left fun p _ => p.ofBytes_bytes
  · rw [List.flatMap_def, hbytes, List.flatten_splitLengths _ _ hsum]

/-- Eight bytes are split into three and five, and each part into two again; two bytes are decoded and encoded,
nine are refused. -/
theorem split_groups_eight :
    let v := ofNat 0xFF07060504038001 ⟨8, by decide, by decide⟩
    let parts := [ofNat 0x038001 ⟨3, by decide, by decide⟩, ofNat 0xFF07060504 ⟨5, by decide, by decide⟩]
    v.split [3, 5] = .ok parts ∧ parts.flatMap bytes = v.bytes ∧
      v.split [1, 2, 4, 1] = .ok [ofNat 1 .byte, ofNat 0x0380 .word, ofNat 0x07060504 .dword, ofNat 0xFF .byte] ∧
      (∃ u, ofBytes [0x80, 0] = .ok u ∧ u.bytes = [0x80, 0]) ∧
      ofBytes (List.replicate 9 0) = .error (.invalidWidth 9) := by
  intro v parts
  have hparts : v.split [3, 5] = .ok parts := by decide +kernel
  obtain ⟨-, hjoined, hfurther⟩ := (split_groups.2.2.2 v [3, 5]).2 parts hparts
  have hsplit : List.zipWith split parts [[1, 2], [4, 1]] =
      [[ofNat 1 .byte, ofNat 0x0380 .word], [ofNat 0x07060504 .dword, ofNat 0xFF .byte]].map .ok := by
    decide +kernel
  exact ⟨hparts, hjoined, hfurther _ _ rfl hsplit, split_groups.2.1 [0x80, 0] (by decide) (by decide),
    split_groups.2.2.1 (List.replicate 9 0) (by decide)⟩

end Value
end Octet
