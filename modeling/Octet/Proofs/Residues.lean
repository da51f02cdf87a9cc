import Mathlib.Data.Int.ModEq
import Octet.Proofs.Arithmetic

/-!
# Signed readings

Every integer has one congruent integer between minus half the modulus and half the modulus, and that is what a
value of the width is read as. There is only one, so whoever finds such an integer has found the signed reading.

* `Width.Reads`: an integer in the range of a width that is congruent to another one.
* `Width.Reads.unique`: **there is at most one.**
* `Value.reads_magnitude`, `Value.reads_ofInt`: the signed reading is one.
-/

namespace Octet

namespace Width

theorem bytes_injective {v w : Width} (h : v.bytes = w.bytes) : v = w := by
  cases v
  cases w
  cases h
  rfl

theorem modulus_eq_two_pow (w : Width) : w.modulus = 2 ^ (8 * w.bytes) :=
  (pow_mul 2 8 w.bytes).symm

theorem natCast_modulus (w : Width) : (w.modulus : Int) = 256 ^ w.bytes :=
  Int.natCast_pow 256 w.bytes

/-- Half of the values of a width are read as negative numbers. -/
theorem natCast_modulus_eq_two_mul (w : Width) : (w.modulus : Int) = 2 * 2 ^ (8 * w.bytes - 1) := by
  have hbits : 8 * w.bytes - 1 + 1 = 8 * w.bytes := by
    have := w.pos
    omega
  rw [modulus_eq_two_pow, ← pow_succ', hbits]
  push_cast
  rfl

/-- `z` is what `a` is read as in two's complement: it has the same remainder, is at least minus half the modulus
and is less than half the modulus. -/
structure Reads (w : Width) (a z : Int) : Prop where
  lower : -2 ^ (8 * w.bytes - 1) ≤ z
  upper : z < 2 ^ (8 * w.bytes - 1)
  modEq : z ≡ a [ZMOD 256 ^ w.bytes]

namespace Reads

variable {w : Width} {a b y z : Int}

/-- **An integer has one reading.** -/
theorem unique (hy : w.Reads a y) (hz : w.Reads a z) : y = z := by
  have hhalf := w.natCast_modulus_eq_two_mul
  have hdvd : (256 : Int) ^ w.bytes ∣ y - z := (hz.modEq.trans hy.modEq.symm).dvd
  rw [← natCast_modulus] at hdvd
  have habs : |y - z| < w.modulus := by
    have := hy.lower
    have := hy.upper
    have := hz.lower
    have := hz.upper
    rw [abs_lt]
    omega
  have hzero : y - z = 0 := Int.eq_zero_of_abs_lt_dvd hdvd habs
  omega

theorem congr (hz : w.Reads a z) (hab : a ≡ b [ZMOD 256 ^ w.bytes]) : w.Reads b z :=
  ⟨hz.lower, hz.upper, hz.modEq.trans hab⟩

end Reads
end Width

namespace Value

/-- **A magnitude is read as the signed reading.** -/
theorem reads_magnitude (v : Value) : v.width.Reads v.magnitude v.signed := by
  have hhalf := v.width.natCast_modulus_eq_two_mul
  have hpos := v.width.modulus_pos
  have hlow := Int.le_bmod (x := v.magnitude) hpos
  have hhigh := Int.bmod_lt (x := v.magnitude) hpos
  refine ⟨?_, ?_, ?_⟩
  · unfold signed
    omega
  · unfold signed
    omega
  · rw [← Width.natCast_modulus]
    exact Int.bmod_emod

theorem ofInt_modEq (z : Int) (w : Width) : ((ofInt z w).magnitude : Int) ≡ z [ZMOD 256 ^ w.bytes] := by
  rw [magnitude_ofInt, Width.natCast_modulus]
  exact Int.mod_modEq z _

/-- A value is made from its magnitude, and from its signed reading. -/
theorem make_magnitude (v : Value) : make v.magnitude v.width.bytes = .ok v := by
  rw [make_bytes, ofInt_magnitude]

theorem make_signed (v : Value) : make v.signed v.width.bytes = .ok v := by
  rw [make_bytes, ofInt_signed]

/-- **A reduced integer is read as the reading of the integer.** -/
theorem reads_ofInt (z : Int) (w : Width) : w.Reads z (ofInt z w).signed :=
  (ofInt z w).reads_magnitude.congr (ofInt_modEq z w)

/-- The signed reading as a remainder that is shifted by half the modulus. -/
theorem signed_eq_emod_sub (v : Value) :
    v.signed = (v.magnitude + 2 ^ (8 * v.width.bytes - 1)) % 2 ^ (8 * v.width.bytes) - 2 ^ (8 * v.width.bytes - 1) := by
  have hhalf := v.width.natCast_modulus_eq_two_mul
  have hpos : (0 : Int) < v.width.modulus := Int.natCast_pos.2 v.width.modulus_pos
  have hmodulus : (2 : Int) ^ (8 * v.width.bytes) = v.width.modulus := by
    rw [Width.modulus_eq_two_pow]
    push_cast
    rfl
  rw [hmodulus]
  generalize hshift : (2 : Int) ^ (8 * v.width.bytes - 1) = half at hhalf
  -- the remainder lies between zero and the modulus, which is twice the shift
  have hlow := Int.emod_nonneg (v.magnitude + half) hpos.ne'
  have hhigh := Int.emod_lt_of_pos (v.magnitude + half) hpos
  refine v.reads_magnitude.unique ⟨?_, ?_, ?_⟩
  · omega
  · omega
  · have hmod := (Int.mod_modEq (v.magnitude + half) v.width.modulus).sub_right half
    rwa [Int.add_sub_cancel, Width.natCast_modulus] at hmod

/-- Reduced integers are combined as the integers are, if remainders decide the remainder of the result. -/
theorem combine_ofInt {f : Int → Int → Int} {w : Width} {a b : Int}
    (hf : f (ofInt a w).magnitude (ofInt b w).magnitude ≡ f a b [ZMOD 256 ^ w.bytes]) :
    combine f (ofInt a w) (ofInt b w) = .ok (ofInt (f a b) w) := by
  rw [← Width.natCast_modulus] at hf
  exact (combine_of_width_eq (x := ofInt a w) (y := ofInt b w) rfl).trans (congrArg Except.ok (ofInt_eq_ofInt hf))

end Value
end Octet
