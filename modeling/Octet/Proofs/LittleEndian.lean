import Octet.Value

/-!
# Bytes and the numbers they denote

A number below `256` to the `n` and its `n` bytes, least significant one first, determine each other.

* `Bytes.ofNat_toNat`: bytes are written back as they were read.
* `Value.toNat_bytes`: the bytes of a value denote its magnitude.
* `Value.ofNat_magnitude`: a value is the reduction of its own magnitude.
-/

namespace Octet

namespace Bytes

/-- Bytes denote a number below `256` to their count. -/
theorem toNat_lt (bs : List UInt8) : toNat bs < Nat.pow 256 bs.length := by
  induction bs with
  | nil => decide
  | cons b bs ih =>
    have hb : b.toNat < 256 := b.toNat_lt
    have hp : Nat.pow 256 (bs.length + 1) = 256 * Nat.pow 256 bs.length := Nat.mul_comm _ _
    rw [toNat, List.length_cons, hp]
    omega

/-- **Reading bytes and writing the number gives the bytes back.** -/
theorem ofNat_toNat (bs : List UInt8) : ofNat bs.length (toNat bs) = bs := by
  induction bs with
  | nil => rfl
  | cons b bs ih =>
    have hb : b.toNat < 256 := b.toNat_lt
    -- the first byte is the remainder by 256, the other bytes are the quotient
    have hdiv : (b.toNat + 256 * toNat bs) / 256 = toNat bs := by omega
    have hmod : UInt8.ofNat (b.toNat + 256 * toNat bs) = b := by
      apply UInt8.toNat_inj.1
      rw [UInt8.toNat_ofNat']
      omega
    rw [toNat, List.length_cons, ofNat, hdiv, hmod, ih]

/-- The number of two byte strings after one another. -/
theorem toNat_append (as bs : List UInt8) :
    toNat (as ++ bs) = toNat as + Nat.pow 256 as.length * toNat bs := by
  induction as with
  | nil => simp [toNat]
  | cons a as ih =>
    have hp : Nat.pow 256 (as.length + 1) = 256 * Nat.pow 256 as.length := Nat.mul_comm _ _
    rw [List.cons_append, toNat, ih, toNat, List.length_cons, hp, Nat.mul_add, Nat.mul_assoc,
      Nat.add_assoc]

end Bytes

namespace Value

@[simp] theorem length_bytes (v : Value) : v.bytes.length = v.width.bytes :=
  Bytes.length_ofNat _ _

/-- Values of one width with one magnitude are equal. -/
theorem ext {v w : Value} (hw : v.width = w.width) (hm : v.magnitude = w.magnitude) : v = w := by
  cases v
  cases w
  cases hw
  cases hm
  rfl

/-- The bytes of a value denote its magnitude. -/
@[simp] theorem toNat_bytes (v : Value) : Bytes.toNat v.bytes = v.magnitude := by
  unfold bytes
  rw [Bytes.toNat_ofNat]
  exact Nat.mod_eq_of_lt v.lt_modulus

/-- A magnitude is already reduced. -/
@[simp] theorem ofNat_magnitude (v : Value) : ofNat v.magnitude v.width = v :=
  ext rfl (Nat.mod_eq_of_lt v.lt_modulus)

end Value
end Octet
