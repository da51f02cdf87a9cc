import Octet.Machine.Execute
import Octet.Proofs.LittleEndian

/-!
# Arithmetic of values

What the operations on values come to in integers. Two values of one width are combined as integers, and
the result is reduced to the width; an extension keeps the signed reading; the upper half of an extended
word is its sign. What a sequence of results that may be errors comes to is said here too, once for all.

* `Operation.apply_of_width_eq`: an operation on two values of one width.
* `Machine.upperHalf_word`: **the upper half of an extended word is all ones or all zeros.**
-/

namespace Octet

section Except

variable {ε α β : Type}

@[simp] theorem ok_bind (a : α) (f : α → Except ε β) : (Except.ok a >>= f) = f a := rfl

@[simp] theorem error_bind (e : ε) (f : α → Except ε β) : (Except.error e >>= f) = Except.error e := rfl

theorem exists_of_bind_eq_ok {x : Except ε α} {f : α → Except ε β} {b : β} (h : x >>= f = .ok b) :
    ∃ a, x = .ok a ∧ f a = .ok b := by
  cases x with
  | error e => cases h
  | ok a => exact ⟨a, rfl, h⟩

end Except

theorem Width.ofNat_bytes (w : Width) : Width.ofNat w.bytes = .ok w := by
  simp [Width.ofNat, Width.ofNat?, w.pos, w.le_eight]

/-- What an operation makes of the numbers of its target and its source. -/
def Operation.eval : Operation → Int → Int → Int
  | .mov, _, source => source
  | .add, target, source => target + source
  | .sub, target, source => target - source

namespace Value

theorem make_bytes (z : Int) (w : Width) : make z w.bytes = .ok (ofInt z w) := by
  unfold make
  rw [Width.ofNat_bytes]
  rfl

/-- An extension that does not shorten gives the signed reading. -/
theorem extend_bytes {v : Value} {w : Width} (h : v.width.bytes ≤ w.bytes) :
    v.extend w.bytes = .ok (ofInt v.signed w) := by
  unfold extend
  rw [if_neg (by omega), make_bytes]

theorem combine_of_width_eq {f : Int → Int → Int} {x y : Value} (h : x.width = y.width) :
    combine f x y = .ok (ofInt (f x.magnitude y.magnitude) x.width) :=
  if_pos h

theorem combine_of_width_ne {f : Int → Int → Int} {x y : Value} (h : x.width ≠ y.width) :
    combine f x y = .error (.widthMismatch x.width.bytes y.width.bytes) :=
  if_neg h

/-- Integers with one remainder give one value. -/
theorem ofInt_eq_ofInt {y z : Int} {w : Width} (h : y % (w.modulus : Int) = z % (w.modulus : Int)) :
    ofInt y w = ofInt z w :=
  ext rfl (congrArg Int.toNat h)

/-- A value is the reduction of its magnitude. -/
theorem ofInt_magnitude (v : Value) : ofInt v.magnitude v.width = v := by
  refine ext rfl ?_
  have hlt : (v.magnitude : Int) < v.width.modulus := Int.ofNat_lt.2 v.lt_modulus
  show ((v.magnitude : Int) % (v.width.modulus : Int)).toNat = v.magnitude
  rw [Int.emod_eq_of_lt (Int.natCast_nonneg _) hlt, Int.toNat_natCast]

/-- **A value is the reduction of its signed reading.** -/
theorem ofInt_signed (v : Value) : ofInt v.signed v.width = v := by
  -- the signed reading and the magnitude differ by a multiple of the modulus
  have h : v.signed % (v.width.modulus : Int) = (v.magnitude : Int) % (v.width.modulus : Int) :=
    Int.bmod_emod
  rw [ofInt_eq_ofInt h, ofInt_magnitude]

/-- A signed reading has less than 64 bits before its sign. -/
theorem natAbs_signed_lt (v : Value) : v.signed.natAbs < Numeral.wordBound := by
  have hmodulus : v.width.modulus ≤ Numeral.wordBound := Nat.pow_le_pow_right (by decide) v.width.le_eight
  have hpos := v.width.modulus_pos
  have hlow := Int.le_bmod (x := v.magnitude) hpos
  have hhigh := Int.bmod_lt (x := v.magnitude) hpos
  unfold signed
  omega

end Value

/-- Two values of one width can be moved, added and subtracted. -/
theorem Operation.apply_of_width_eq (operation : Operation) {x y : Value} (h : x.width = y.width) :
    operation.apply x y = .ok (Value.ofInt (operation.eval x.magnitude y.magnitude) x.width) := by
  cases operation with
  | mov =>
    show Except.ok y = .ok (Value.ofInt y.magnitude x.width)
    rw [h, Value.ofInt_magnitude]
  | add => exact Value.combine_of_width_eq h
  | sub => exact Value.combine_of_width_eq h

/-- The signed reading of a word is below zero if its highest bit is set. -/
theorem Value.signed_word {x : Value} (hx : x.width = Width.word) :
    x.signed = if 0x8000 ≤ x.magnitude then (x.magnitude : Int) - 0x10000 else x.magnitude := by
  have hlt := x.lt_modulus
  unfold Value.signed
  rw [hx] at hlt ⊢
  have hlt : x.magnitude < 65536 := hlt
  show Int.bmod x.magnitude 65536 = _
  simp only [Int.bmod]
  split <;> split <;> omega

/-- The upper half of a word that has been extended to a double word. -/
theorem Machine.upperHalf_word {x : Value} (hx : x.width = Width.word) :
    Machine.upperHalf x = .ok (Value.ofInt (if 0x8000 ≤ x.magnitude then 0xFFFF else 0) Width.word) := by
  have he : x.extend 4 = .ok (Value.ofInt x.signed Width.dword) :=
    Value.extend_bytes (w := Width.dword) (by rw [hx]; decide)
  have hhalf : Machine.upperHalf x =
      .ok (Value.ofNat ((Value.ofInt x.signed Width.dword).magnitude / Width.word.modulus) Width.word) := by
    unfold Machine.upperHalf
    rw [he]
    rfl
  have hlt := x.lt_modulus
  rw [hx] at hlt
  have hlt : x.magnitude < 65536 := hlt
  rw [hhalf]
  congr 1
  refine Value.ext rfl ?_
  -- in four bytes a negative number starts with two bytes of ones, any other with two of zeros
  show (x.signed % 4294967296).toNat / 65536 % 65536 =
    ((if 0x8000 ≤ x.magnitude then (0xFFFF : Int) else 0) % 65536).toNat
  rw [Value.signed_word hx]
  split <;> omega

end Octet
