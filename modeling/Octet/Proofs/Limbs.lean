import Mathlib.Algebra.Order.Ring.Int
import Mathlib.Data.Int.ModEq
import Mathlib.Data.Nat.Bitwise
import Octet.Proofs.Literals
import Octet.Proofs.Residues
import Octet.Proofs.Splitting

/-!
# Values in words of 64 bits

A value fits into a word of 64 bits that is kept beside the number of its bytes, and everything that is done with
values can be done with such words. A mask takes the remainder, a shift to the left and an arithmetic shift back
read the sign, bytes are shifted in and parts are shifted out. The integers that the words stand for never show
that they are words: whatever is derived on one side is derived on the other, errors included.

* `Limb`: a word and the number of its bytes, with the operations on them.
* `Limb.masked_eq_limb`: a masked word is the value of every integer that it is congruent to.
* `Limb.reads_shifted`: **shifting to the left and back gives the signed reading.**
* `Limb.hom`: **each operation on words is the operation on values.**
* `Value.residues`: **values are integers modulo `256` to the width, in words of 64 bits too.**
-/

namespace Octet

/-- A word of 64 bits and the number of its bytes that count. -/
structure Limb where
  bits : BitVec 64
  bytes : Nat
  deriving DecidableEq, Repr

/-- A value in a word. -/
def Value.limb (v : Value) : Limb :=
  ⟨BitVec.ofNat 64 v.magnitude, v.width.bytes⟩

namespace Limb

/-- The word with ones in its `n` low bytes. -/
def mask (n : Nat) : BitVec 64 :=
  if 8 ≤ n then BitVec.allOnes 64 else (1#64 <<< (8 * n)) - 1#64

/-- Refuses all but one to eight bytes. -/
def checkWidth (n : Nat) : Except Error Unit :=
  if n = 0 ∨ 8 < n then .error (.invalidWidth n) else .ok ()

/-- The `n` low bytes of an integer. -/
def make (z : Int) (n : Nat) : Except Error Limb := do
  checkWidth n
  return ⟨BitVec.ofInt 64 z &&& mask n, n⟩

/-- Bytes shifted into a word, the most significant one first. -/
def shiftIn (bs : List UInt8) : BitVec 64 :=
  bs.reverse.foldl (fun word b => word <<< 8 ||| b.toBitVec.setWidth 64) 0#64

/-- The word that some bytes make, as wide as there are bytes. -/
def ofBytes (bs : List UInt8) : Except Error Limb := do
  checkWidth bs.length
  return ⟨shiftIn bs, bs.length⟩

/-- The sign bit is shifted to the front of the word and back, and on the way back it fills the word. -/
def signed (x : Limb) : Int :=
  ((x.bits <<< (64 - 8 * x.bytes)).sshiftRight (64 - 8 * x.bytes)).toInt

/-- The same signed reading in at least as many bytes. -/
def extend (x : Limb) (n : Nat) : Except Error Limb :=
  if n < x.bytes then .error (.invalidExtension x.bytes n) else make x.signed n

/-- A word operation on two words with the same number of bytes. What it carries out of them is masked. -/
def combine (f : BitVec 64 → BitVec 64 → BitVec 64) (x y : Limb) : Except Error Limb :=
  if x.bytes = y.bytes then .ok ⟨f x.bits y.bits &&& mask x.bytes, x.bytes⟩
  else .error (.widthMismatch x.bytes y.bytes)

/-- Parts of a word, the first one `offset` bytes from its low end. -/
def partsFrom (word : BitVec 64) (offset : Nat) : List Nat → List Limb
  | [] => []
  | n :: sizes => ⟨word >>> (8 * offset) &&& mask n, n⟩ :: partsFrom word (offset + n) sizes

/-- The word in consecutive parts. -/
def split (x : Limb) (sizes : List Nat) : Except Error (List Limb) :=
  if 0 ∈ sizes ∨ sizes.sum ≠ x.bytes then .error (.invalidSplit x.bytes sizes)
  else .ok (partsFrom x.bits 0 sizes)

/-- The bytes of a view in a word. -/
def read (s : Store) (v : View) : Limb :=
  ⟨shiftIn (s.range v.handle v.offset v.width.bytes) &&& mask v.width.bytes, v.width.bytes⟩

end Limb

/-- What can be done with values, whatever they are kept in. -/
structure Arithmetic (α : Type) where
  make : Int → Nat → Except Error α
  ofBytes : List UInt8 → Except Error α
  ofByte : UInt8 → α
  ofWord : UInt16 → α
  ofDword : UInt32 → α
  add : α → α → Except Error α
  sub : α → α → Except Error α
  split : α → List Nat → Except Error (List α)
  extend : α → Nat → Except Error α
  read : Store → View → α

def Value.arithmetic : Arithmetic Value where
  make := Value.make
  ofBytes := Value.ofBytes
  ofByte b := Value.ofNat b.toNat .byte
  ofWord b := Value.ofNat b.toNat .word
  ofDword b := Value.ofNat b.toNat .dword
  add := Value.add
  sub := Value.sub
  split := Value.split
  extend := Value.extend
  read s v := v.read s

def Limb.arithmetic : Arithmetic Limb where
  make := Limb.make
  ofBytes := Limb.ofBytes
  ofByte b := ⟨b.toBitVec.setWidth 64, 1⟩
  ofWord b := ⟨b.toBitVec.setWidth 64, 2⟩
  ofDword b := ⟨b.toBitVec.setWidth 64, 4⟩
  add := Limb.combine (· + ·)
  sub := Limb.combine (· - ·)
  split := Limb.split
  extend := Limb.extend
  read := Limb.read

/-- What a chain of operations can give. -/
inductive Arithmetic.Obtained {α : Type} (A : Arithmetic α) : α → Prop
  | make {z : Int} {n : Nat} {x : α} (h : A.make z n = .ok x) : Obtained A x
  | ofBytes {bs : List UInt8} {x : α} (h : A.ofBytes bs = .ok x) : Obtained A x
  | ofByte (b : UInt8) : Obtained A (A.ofByte b)
  | ofWord (b : UInt16) : Obtained A (A.ofWord b)
  | ofDword (b : UInt32) : Obtained A (A.ofDword b)
  | add {x y z : α} (hx : Obtained A x) (hy : Obtained A y) (h : A.add x y = .ok z) : Obtained A z
  | sub {x y z : α} (hx : Obtained A x) (hy : Obtained A y) (h : A.sub x y = .ok z) : Obtained A z
  | part {x y : α} {sizes : List Nat} {parts : List α} (hx : Obtained A x) (h : A.split x sizes = .ok parts)
      (hy : y ∈ parts) : Obtained A y
  | extend {x y : α} {n : Nat} (hx : Obtained A x) (h : A.extend x n = .ok y) : Obtained A y
  | read (s : Store) (v : View) : Obtained A (A.read s v)

/-- Each operation of `B` does to the images what the operation of `A` does, errors included. -/
structure Arithmetic.Hom {α β : Type} (A : Arithmetic α) (B : Arithmetic β) (f : α → β) : Prop where
  make : ∀ z n, B.make z n = (A.make z n).map f
  ofBytes : ∀ bs, B.ofBytes bs = (A.ofBytes bs).map f
  ofByte : ∀ b, B.ofByte b = f (A.ofByte b)
  ofWord : ∀ b, B.ofWord b = f (A.ofWord b)
  ofDword : ∀ b, B.ofDword b = f (A.ofDword b)
  add : ∀ x y, B.add (f x) (f y) = (A.add x y).map f
  sub : ∀ x y, B.sub (f x) (f y) = (A.sub x y).map f
  split : ∀ x sizes, B.split (f x) sizes = (A.split x sizes).map (List.map f)
  extend : ∀ x n, B.extend (f x) n = (A.extend x n).map f
  read : ∀ s v, B.read s v = f (A.read s v)

/-- **Only images are obtained from images.** -/
theorem Arithmetic.Hom.image {α β : Type} {A : Arithmetic α} {B : Arithmetic β} {f : α → β} (hf : A.Hom B f) {b : β}
    (hb : B.Obtained b) : ∃ a, f a = b := by
  have himage : ∀ {x : Except Error α} {b : β}, x.map f = .ok b → ∃ a, f a = b := by
    intro x b h
    cases x with
    | error e => cases h
    | ok a => exact ⟨a, Except.ok.inj h⟩
  induction hb with
  | make h => exact himage ((hf.make _ _).symm.trans h)
  | ofBytes h => exact himage ((hf.ofBytes _).symm.trans h)
  | ofByte b => exact ⟨_, (hf.ofByte b).symm⟩
  | ofWord b => exact ⟨_, (hf.ofWord b).symm⟩
  | ofDword b => exact ⟨_, (hf.ofDword b).symm⟩
  | add _ _ h ihx ihy =>
    obtain ⟨x, rfl⟩ := ihx
    obtain ⟨y, rfl⟩ := ihy
    exact himage ((hf.add x y).symm.trans h)
  | sub _ _ h ihx ihy =>
    obtain ⟨x, rfl⟩ := ihx
    obtain ⟨y, rfl⟩ := ihy
    exact himage ((hf.sub x y).symm.trans h)
  | part _ h hy ihx =>
    obtain ⟨x, rfl⟩ := ihx
    rw [hf.split] at h
    cases hparts : A.split x _ with
    | error e =>
      rw [hparts] at h
      cases h
    | ok parts =>
      rw [hparts] at h
      cases h
      obtain ⟨a, -, ha⟩ := List.mem_map.1 hy
      exact ⟨a, ha⟩
  | extend _ h ihx =>
    obtain ⟨x, rfl⟩ := ihx
    exact himage ((hf.extend x _).symm.trans h)
  | read s v => exact ⟨_, (hf.read s v).symm⟩

namespace Limb

/-- A word that stands for a value is known by its number. -/
theorem eq_limb {x : Limb} {v : Value} (hbytes : x.bytes = v.width.bytes) (hbits : x.bits.toNat = v.magnitude) :
    x = v.limb := by
  cases x with
  | mk bits bytes =>
    have hword : bits = BitVec.ofNat 64 v.magnitude := by
      rw [← hbits, BitVec.ofNat_toNat, BitVec.setWidth_eq]
    cases hbytes
    cases hword
    rfl

/-- A value fits into a word. -/
@[simp] theorem toNat_bits_limb (v : Value) : v.limb.bits.toNat = v.magnitude := by
  have hmodulus : v.width.modulus ≤ 2 ^ 64 := Nat.pow_le_pow_right (by decide) v.width.le_eight
  have hlt := v.lt_modulus
  show v.magnitude % 2 ^ 64 = v.magnitude
  exact Nat.mod_eq_of_lt (by omega)

theorem toNat_mask {n : Nat} (hn : n ≤ 8) : (mask n).toNat = 2 ^ (8 * n) - 1 := by
  unfold mask
  by_cases hfull : 8 ≤ n
  · obtain rfl : n = 8 := by omega
    rw [if_pos hfull, BitVec.toNat_allOnes]
  · have hlt : 2 ^ (8 * n) < 2 ^ 64 := Nat.pow_lt_pow_right (by decide) (by omega)
    have hpos : 0 < 2 ^ (8 * n) := Nat.two_pow_pos _
    rw [if_neg hfull, BitVec.toNat_sub, BitVec.toNat_shiftLeft, Nat.shiftLeft_eq]
    simp only [BitVec.toNat_ofNat]
    omega

/-- A mask takes the remainder by `256` to the width. -/
theorem toNat_and_mask (word : BitVec 64) (w : Width) : (word &&& mask w.bytes).toNat = word.toNat % w.modulus := by
  rw [BitVec.toNat_and, toNat_mask w.le_eight, Nat.and_two_pow_sub_one_eq_mod, Width.modulus_eq_two_pow]

/-- **A masked word is the value of every integer that it is congruent to.** -/
theorem masked_eq_limb {word : BitVec 64} {z : Int} (h : (word.toNat : Int) ≡ z [ZMOD 2 ^ 64]) (w : Width) :
    ⟨word &&& mask w.bytes, w.bytes⟩ = (Value.ofInt z w).limb := by
  -- every modulus divides 64 bits
  have hdvd : (w.modulus : Int) ∣ 2 ^ 64 := by
    exact_mod_cast (Nat.pow_dvd_pow 256 w.le_eight : w.modulus ∣ 256 ^ 8)
  have hmod : (word.toNat : Int) % w.modulus = z % w.modulus := h.of_dvd hdvd
  apply eq_limb rfl
  have hmagnitude := Value.magnitude_ofInt z w
  rw [toNat_and_mask]
  omega

/-- The same for a number. -/
theorem masked_eq_limb_ofNat {word : BitVec 64} {m : Nat} (h : word.toNat = m) (w : Width) :
    ⟨word &&& mask w.bytes, w.bytes⟩ = (Value.ofNat m w).limb := by
  apply eq_limb rfl
  rw [toNat_and_mask, h]
  rfl

theorem checkWidth_bytes (w : Width) : checkWidth w.bytes = .ok () := by
  have hpos := w.pos
  have hle := w.le_eight
  exact if_neg (by omega)

/-- Both sides refuse the same numbers of bytes. -/
theorem checkWidth_cases (n : Nat) :
    (∃ w : Width, w.bytes = n) ∨ checkWidth n = .error (.invalidWidth n) ∧ Width.ofNat n = .error (.invalidWidth n) := by
  by_cases hn : 0 < n ∧ n ≤ 8
  · exact Or.inl ⟨⟨n, hn.1, hn.2⟩, rfl⟩
  · refine Or.inr ⟨if_pos (by omega), ?_⟩
    rw [Width.ofNat_eq, dif_neg hn]

theorem make_eq (z : Int) (n : Nat) : make z n = (Value.make z n).map Value.limb := by
  rcases checkWidth_cases n with ⟨w, rfl⟩ | ⟨hcheck, hwidth⟩
  · have hword : ((BitVec.ofInt 64 z).toNat : Int) ≡ z [ZMOD 2 ^ 64] := by
      rw [BitVec.toNat_ofInt, Int.toNat_of_nonneg (Int.emod_nonneg z (by decide))]
      exact Int.mod_modEq z _
    unfold make
    rw [checkWidth_bytes, Value.make_bytes, ok_bind, masked_eq_limb hword]
    rfl
  · unfold make Value.make
    rw [hcheck, hwidth]
    rfl

/-- One more byte in a word that has room for it. -/
theorem toNat_shift_or {word : BitVec 64} (b : UInt8) (h : word.toNat < 256 ^ 7) :
    (word <<< 8 ||| b.toBitVec.setWidth 64).toNat = b.toNat + 256 * word.toNat := by
  have hb : b.toNat < 2 ^ 8 := b.toNat_lt
  have hbyte : (b.toBitVec.setWidth 64).toNat = b.toNat := by
    rw [BitVec.toNat_setWidth]
    exact Nat.mod_eq_of_lt (Nat.lt_trans hb (by decide))
  have hshift : (word <<< 8).toNat = word.toNat <<< 8 := by
    rw [BitVec.toNat_shiftLeft, Nat.shiftLeft_eq]
    omega
  rw [BitVec.toNat_or, hbyte, hshift, ← Nat.shiftLeft_add_eq_or_of_lt hb, Nat.shiftLeft_eq]
  omega

/-- **Bytes that are shifted in make the number that they denote.** -/
theorem toNat_shiftIn (bs : List UInt8) : bs.length ≤ 8 → (shiftIn bs).toNat = Bytes.toNat bs := by
  unfold shiftIn
  rw [List.foldl_reverse]
  induction bs with
  | nil => intro _; rfl
  | cons b bs ih =>
    intro h
    rw [List.length_cons] at h
    have hrest := ih (by omega)
    have hlt : Bytes.toNat bs < 256 ^ 7 :=
      Nat.lt_of_lt_of_le (Bytes.toNat_lt bs) (Nat.pow_le_pow_right (by decide) (by omega))
    rw [List.foldr_cons, toNat_shift_or b (by rw [hrest]; exact hlt), hrest]
    rfl

theorem ofBytes_eq (bs : List UInt8) : ofBytes bs = (Value.ofBytes bs).map Value.limb := by
  unfold ofBytes Value.ofBytes
  rcases checkWidth_cases bs.length with ⟨w, hw⟩ | ⟨hcheck, hwidth⟩
  · have hlt : Bytes.toNat bs < w.modulus := by
      have hlt := Bytes.toNat_lt bs
      rwa [← hw] at hlt
    rw [← hw, checkWidth_bytes, Width.ofNat_bytes]
    refine congrArg Except.ok (eq_limb rfl ?_)
    show (shiftIn bs).toNat = Bytes.toNat bs % w.modulus
    rw [toNat_shiftIn bs (by rw [← hw]; exact w.le_eight), Nat.mod_eq_of_lt hlt]
  · rw [hcheck, hwidth]
    rfl

theorem toInt_shiftLeft_modEq (word : BitVec 64) (s : Nat) :
    (word <<< s).toInt ≡ 2 ^ s * word.toNat [ZMOD 2 ^ 64] := by
  have hcongr := Int.bmod_emod (x := ((word.toNat <<< s : Nat) : Int)) (m := 2 ^ 64)
  rw [← BitVec.toInt_shiftLeft, Nat.shiftLeft_eq, Nat.mul_comm] at hcongr
  push_cast at hcongr
  exact hcongr

/-- **Shifting to the left and back gives the signed reading.** -/
theorem reads_shifted (w : Width) (word : BitVec 64) :
    w.Reads word.toNat ((word <<< (64 - 8 * w.bytes)).sshiftRight (64 - 8 * w.bytes)).toInt := by
  have hpos := w.pos
  have hle := w.le_eight
  generalize hs : 64 - 8 * w.bytes = s
  have hunit : (0 : Int) < 2 ^ s := pow_pos (by decide) s
  have hscale : (2 : Int) ^ 64 = 2 ^ s * 256 ^ w.bytes := by
    rw [← Width.natCast_modulus, Width.modulus_eq_two_pow, Int.natCast_pow, Nat.cast_ofNat, ← pow_add]
    congr 1
    omega
  have hhalf : (2 : Int) ^ 63 = 2 ^ s * 2 ^ (8 * w.bytes - 1) := by
    rw [← pow_add]
    congr 1
    omega
  have hmod := toInt_shiftLeft_modEq word s
  rw [hscale] at hmod
  -- the shifted word is a multiple of the shift, so nothing is lost on the way back
  obtain ⟨q, hq⟩ : (2 : Int) ^ s ∣ (word <<< s).toInt :=
    (Int.dvd_iff_dvd_of_dvd_sub (hmod.of_mul_right _).dvd).1 (Dvd.intro _ rfl)
  have hback : ((word <<< s).sshiftRight s).toInt = q := by
    rw [BitVec.toInt_sshiftRight, Int.shiftRight_eq_div_pow, hq, Nat.cast_pow, Nat.cast_ofNat]
    exact Int.mul_ediv_cancel_left q hunit.ne'
  have hlow := BitVec.le_toInt (word <<< s)
  have hhigh := BitVec.toInt_lt (x := word <<< s)
  rw [hq] at hlow hhigh hmod
  rw [hback]
  refine ⟨?_, ?_, ?_⟩
  · apply le_of_mul_le_mul_left _ hunit
    rw [mul_neg, ← hhalf]
    exact hlow
  · apply lt_of_mul_lt_mul_left _ hunit.le
    rw [← hhalf]
    exact hhigh
  · exact Int.ModEq.mul_left_cancel' hunit.ne' hmod

theorem signed_limb (v : Value) : v.limb.signed = v.signed := by
  have hreads := reads_shifted v.width v.limb.bits
  rw [toNat_bits_limb] at hreads
  exact hreads.unique v.reads_magnitude

theorem extend_eq (v : Value) (n : Nat) : v.limb.extend n = (v.extend n).map Value.limb := by
  unfold extend Value.extend
  rw [signed_limb, make_eq]
  show (if n < v.width.bytes then _ else _) = _
  split <;> rfl

/-- A word operation that computes modulo 64 bits computes modulo every width. -/
theorem combine_eq {f : BitVec 64 → BitVec 64 → BitVec 64} {g : Int → Int → Int}
    (h : ∀ a b, ((f a b).toNat : Int) ≡ g a.toNat b.toNat [ZMOD 2 ^ 64]) (x y : Value) :
    combine f x.limb y.limb = (Value.combine g x y).map Value.limb := by
  have hword := h x.limb.bits y.limb.bits
  rw [toNat_bits_limb, toNat_bits_limb] at hword
  unfold combine Value.combine
  by_cases hw : x.width = y.width
  · have hbytes : x.limb.bytes = y.limb.bytes := congrArg Width.bytes hw
    rw [if_pos hw, if_pos hbytes]
    exact congrArg Except.ok (masked_eq_limb hword x.width)
  · have hbytes : ¬ x.limb.bytes = y.limb.bytes := fun hbytes => hw (Width.bytes_injective hbytes)
    rw [if_neg hw, if_neg hbytes]
    rfl

theorem partsFrom_eq (word : BitVec 64) (ws : List Width) : ∀ offset : Nat,
    partsFrom word offset (ws.map Width.bytes) = (Value.cut (word.toNat / 256 ^ offset) ws).map Value.limb := by
  induction ws with
  | nil => intro offset; rfl
  | cons w ws ih =>
    intro offset
    have hshift : (word >>> (8 * offset)).toNat = word.toNat / 256 ^ offset := by
      rw [BitVec.toNat_ushiftRight, Nat.shiftRight_eq_div_pow]
      exact congrArg (word.toNat / ·) (pow_mul 2 8 offset)
    have hdiv : word.toNat / 256 ^ offset / w.modulus = word.toNat / 256 ^ (offset + w.bytes) := by
      rw [Nat.div_div_eq_div_mul, pow_add]
      rfl
    rw [List.map_cons, partsFrom, Value.cut, List.map_cons, masked_eq_limb_ofNat hshift, ih, hdiv]

theorem split_eq (v : Value) (sizes : List Nat) : v.limb.split sizes = (v.split sizes).map (List.map Value.limb) := by
  unfold split Value.split
  by_cases hcuts : v.width.Cuts sizes
  · obtain ⟨ws, hparts, rfl⟩ := Width.parts_of_cuts hcuts
    rw [hparts, if_neg (by rintro (hzero | hsum); exacts [hcuts.1 hzero, hsum hcuts.2]), partsFrom_eq,
      toNat_bits_limb, pow_zero, Nat.div_one]
    rfl
  · have hrefused : 0 ∈ sizes ∨ sizes.sum ≠ v.limb.bytes := by
      by_contra hgood
      rw [not_or, not_not] at hgood
      exact hcuts hgood
    rw [Width.parts_of_not_cuts hcuts, if_pos hrefused]
    rfl

theorem read_eq (s : Store) (v : View) : read s v = (v.read s).limb := by
  have hlength : (s.range v.handle v.offset v.width.bytes).length ≤ 8 :=
    Nat.le_trans (List.length_take_le _ _) v.width.le_eight
  exact masked_eq_limb_ofNat (toNat_shiftIn _ hlength) v.width

theorem toNat_add_modEq (a b : BitVec 64) : ((a + b).toNat : Int) ≡ a.toNat + b.toNat [ZMOD 2 ^ 64] := by
  rw [BitVec.toNat_add]
  push_cast
  exact Int.mod_modEq _ _

theorem toNat_sub_modEq (a b : BitVec 64) : ((a - b).toNat : Int) ≡ a.toNat - b.toNat [ZMOD 2 ^ 64] := by
  have hb : b.toNat < 2 ^ 64 := b.isLt
  rw [BitVec.toNat_sub]
  unfold Int.ModEq
  omega

/-- Fewer bits than a word has keep their number, which is that of their width. -/
theorem toNat_setWidth_mod {n : Nat} (bits : BitVec n) (h : n ≤ 64) :
    (bits.setWidth 64).toNat = bits.toNat % 2 ^ n := by
  have hlt : bits.toNat < 2 ^ n := bits.isLt
  have hle : 2 ^ n ≤ 2 ^ 64 := Nat.pow_le_pow_right (by decide) h
  rw [BitVec.toNat_setWidth, Nat.mod_eq_of_lt hlt, Nat.mod_eq_of_lt (Nat.lt_of_lt_of_le hlt hle)]

/-- **Each operation on words is the operation on values.** -/
theorem hom : Value.arithmetic.Hom Limb.arithmetic Value.limb where
  make := make_eq
  ofBytes := ofBytes_eq
  ofByte b := eq_limb rfl (toNat_setWidth_mod b.toBitVec (by decide))
  ofWord b := eq_limb rfl (toNat_setWidth_mod b.toBitVec (by decide))
  ofDword b := eq_limb rfl (toNat_setWidth_mod b.toBitVec (by decide))
  add := combine_eq toNat_add_modEq
  sub := combine_eq toNat_sub_modEq
  split := split_eq
  extend := extend_eq
  read := read_eq

/-- **Chains of operations on words give exactly the words of one to eight bytes with nothing above them.** -/
theorem obtained_iff (x : Limb) :
    arithmetic.Obtained x ↔ 0 < x.bytes ∧ x.bytes ≤ 8 ∧ x.bits.toNat < 256 ^ x.bytes := by
  constructor
  · intro hx
    obtain ⟨v, rfl⟩ := hom.image hx
    rw [toNat_bits_limb]
    exact ⟨v.width.pos, v.width.le_eight, v.lt_modulus⟩
  · rintro ⟨hpos, hle, hlt⟩
    have hvalue : x = Value.limb ⟨⟨x.bytes, hpos, hle⟩, x.bits.toNat, hlt⟩ := eq_limb rfl rfl
    have hmake : make x.bits.toNat x.bytes = .ok x := by
      rw [make_eq, hvalue, toNat_bits_limb]
      exact congrArg (Except.map Value.limb) (Value.make_magnitude _)
    exact .make hmake

end Limb

namespace Value

/-- **Values are integers modulo `256` to the width.** An integer is reduced to its remainder, and its signed
reading is the only integer in the range of the width that is congruent to it. Sums and differences of reduced
integers are the reduced sums and differences, and a value is what its magnitude and its signed reading are
reduced to. All of it can be computed in words of 64 bits, where every chain of operations gives one to eight
bytes with nothing above them. -/
theorem residues :
    (∀ (w : Width) (a : Int), ∃ x, make a w.bytes = .ok x ∧ x.width = w ∧ (x.magnitude : Int) = a % 256 ^ w.bytes ∧
      (∀ z, w.Reads a z ↔ z = x.signed) ∧
      x.signed = (x.magnitude + 2 ^ (8 * w.bytes - 1)) % 2 ^ (8 * w.bytes) - 2 ^ (8 * w.bytes - 1)) ∧
    (∀ (w : Width) (a b : Int), ∃ x y s d, make a w.bytes = .ok x ∧ make b w.bytes = .ok y ∧
      x.add y = .ok s ∧ s.width = w ∧ (s.magnitude : Int) = (a + b) % 256 ^ w.bytes ∧
      x.sub y = .ok d ∧ d.width = w ∧ (d.magnitude : Int) = (a - b) % 256 ^ w.bytes) ∧
    (∀ x : Value, make x.signed x.width.bytes = .ok x ∧ make x.magnitude x.width.bytes = .ok x) ∧
    (∀ x, arithmetic.Obtained x → 1 ≤ x.width.bytes ∧ x.width.bytes ≤ 8 ∧ x.magnitude < 256 ^ x.width.bytes) ∧
    arithmetic.Hom Limb.arithmetic limb ∧ (∀ x : Value, x.limb.signed = x.signed) ∧
    ∀ y, Limb.arithmetic.Obtained y ↔ 1 ≤ y.bytes ∧ y.bytes ≤ 8 ∧ y.bits.toNat < 256 ^ y.bytes := by
  refine ⟨?_, ?_, ?_, ?_, Limb.hom, Limb.signed_limb, Limb.obtained_iff⟩
  · intro w a
    refine ⟨ofInt a w, make_bytes a w, rfl, magnitude_ofInt_pow a w, ?_, (ofInt a w).signed_eq_emod_sub⟩
    intro z
    constructor
    · intro hz
      exact hz.unique (reads_ofInt a w)
    · rintro rfl
      exact reads_ofInt a w
  · intro w a b
    have ha := ofInt_modEq a w
    have hb := ofInt_modEq b w
    exact ⟨ofInt a w, ofInt b w, ofInt (a + b) w, ofInt (a - b) w, make_bytes a w, make_bytes b w,
      combine_ofInt (ha.add hb), rfl, magnitude_ofInt_pow _ w, combine_ofInt (ha.sub hb), rfl, magnitude_ofInt_pow _ w⟩
  · intro x
    exact ⟨x.make_signed, x.make_magnitude⟩
  · intro x _
    exact ⟨x.width.pos, x.width.le_eight, x.lt_modulus⟩

/-- Integers far outside of 64 bits at the full width, and a chain on words: two bytes with a sign, extended to four
and cut into one and three. -/
theorem residues_wide :
    let w : Width := ⟨8, by decide, by decide⟩
    (∃ x y s d, make (5 - 2 ^ 127) 8 = .ok x ∧ make (2 ^ 127 - 1) 8 = .ok y ∧
      x.add y = .ok s ∧ s.width = w ∧ (s.magnitude : Int) = 4 ∧
      x.sub y = .ok d ∧ d.width = w ∧ (d.magnitude : Int) = 6) ∧
    (∃ y, make (2 ^ 127 - 1) 8 = .ok y ∧ y.magnitude = 2 ^ 64 - 1 ∧ y.signed = -1) ∧
    Limb.arithmetic.Obtained ⟨0xffff80#64, 3⟩ ∧ (0xffff80#64).toNat < 256 ^ 3 := by
  intro w
  obtain ⟨hreduce, hcombine, -, -, -, -, hlimbs⟩ := residues
  have hbytes : Limb.arithmetic.ofBytes [0xff, 0x80] = .ok ⟨0x80ff#64, 2⟩ := by decide +kernel
  have hwide : Limb.arithmetic.extend ⟨0x80ff#64, 2⟩ 4 = .ok ⟨0xffff80ff#64, 4⟩ := by decide +kernel
  have hparts : Limb.arithmetic.split ⟨0xffff80ff#64, 4⟩ [1, 3] = .ok [⟨0xff#64, 1⟩, ⟨0xffff80#64, 3⟩] := by
    decide +kernel
  have hpart : Limb.arithmetic.Obtained ⟨0xffff80#64, 3⟩ :=
    .part (.extend (.ofBytes hbytes) hwide) hparts (List.mem_cons_of_mem _ List.mem_cons_self)
  obtain ⟨x, y, s, d, hx, hy, hadd, hs, hsum, hsub, hd, hdifference⟩ := hcombine w (5 - 2 ^ 127) (2 ^ 127 - 1)
  have hfour : (5 - 2 ^ 127 + (2 ^ 127 - 1) : Int) % 256 ^ w.bytes = 4 := by decide +kernel
  have hsix : (5 - 2 ^ 127 - (2 ^ 127 - 1) : Int) % 256 ^ w.bytes = 6 := by decide +kernel
  obtain ⟨y', hy', -, hmagnitude, hsigned, -⟩ := hreduce w (2 ^ 127 - 1)
  have hones : (2 ^ 127 - 1 : Int) % 256 ^ w.bytes = 2 ^ 64 - 1 := by decide +kernel
  have hreads : w.Reads (2 ^ 127 - 1) (-1) := ⟨by decide +kernel, by decide +kernel, by decide +kernel⟩
  refine ⟨⟨x, y, s, d, hx, hy, hadd, hs, hsum.trans hfour, hsub, hd, hdifference.trans hsix⟩,
    ⟨y', hy', ?_, ((hsigned (-1)).1 hreads).symm⟩, hpart, ((hlimbs _).1 hpart).2.2⟩
  rw [hones] at hmagnitude
  omega

end Value

end Octet
