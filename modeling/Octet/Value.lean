import Octet.Error

/-!
# Values

A value is a whole number of one to eight bytes. It can be read as a magnitude, as the integer of
least absolute value with the same remainder (its signed reading), or as its bytes with the least
significant one first. Arithmetic is modulo `256` to the width, and only values of one width are
added or subtracted.

* `Value.magnitude_ofInt`: an integer is reduced modulo `256` to the width.
* `Bytes.toNat_ofNat`: a number written in `n` bytes is read back modulo `256` to the `n`.
-/

namespace Octet

/-- A number of bytes that a value can have. -/
structure Width where
  bytes : Nat
  pos : 0 < bytes
  le_eight : bytes ≤ 8
  deriving DecidableEq, Repr

namespace Width

/-- The width of a byte. -/
def byte : Width := ⟨1, by decide, by decide⟩

/-- The width of a word, two bytes. -/
def word : Width := ⟨2, by decide, by decide⟩

/-- The width of a double word, four bytes. -/
def dword : Width := ⟨4, by decide, by decide⟩

/-- The width with a given number of bytes, if there is one. -/
def ofNat? (n : Nat) : Option Width :=
  if h : 0 < n ∧ n ≤ 8 then some ⟨n, h.1, h.2⟩ else none

/-- The width with a given number of bytes. -/
def ofNat (n : Nat) : Except Error Width :=
  match ofNat? n with
  | some w => .ok w
  | none => .error (.invalidWidth n)

/-- How many values of this width there are: `256` to the width. -/
def modulus (w : Width) : Nat :=
  Nat.pow 256 w.bytes

theorem modulus_pos (w : Width) : 0 < w.modulus :=
  Nat.pow_pos (by decide)

/-- The total number of bytes of some widths. -/
def total : List Width → Nat
  | [] => 0
  | w :: ws => w.bytes + total ws

/-- The sizes as widths, if they cut `w` bytes into nonempty parts. -/
def parts (w : Width) (sizes : List Nat) : Except Error (List Width) :=
  match sizes.mapM ofNat? with
  | some ws => if total ws = w.bytes then .ok ws else .error (.invalidSplit w.bytes sizes)
  | none => .error (.invalidSplit w.bytes sizes)

end Width

namespace Bytes

/-- The number that some bytes denote, the least significant one first. -/
def toNat : List UInt8 → Nat
  | [] => 0
  | b :: bs => b.toNat + 256 * toNat bs

/-- The `n` low bytes of a number, the least significant one first. -/
def ofNat : Nat → Nat → List UInt8
  | 0, _ => []
  | n + 1, m => UInt8.ofNat m :: ofNat n (m / 256)

@[simp] theorem length_ofNat (n m : Nat) : (ofNat n m).length = n := by
  induction n generalizing m with
  | zero => rfl
  | succ n ih => simp [ofNat, ih]

theorem toNat_ofNat (n m : Nat) : toNat (ofNat n m) = m % Nat.pow 256 n := by
  induction n generalizing m with
  | zero => simp [ofNat, toNat, Nat.mod_one]
  | succ n ih =>
    have h : Nat.pow 256 (n + 1) = 256 * Nat.pow 256 n := Nat.mul_comm _ _
    rw [ofNat, toNat, ih, h, Nat.mod_mul]
    simp

end Bytes

/-- A number of one to eight bytes. -/
structure Value where
  width : Width
  magnitude : Nat
  lt_modulus : magnitude < width.modulus
  deriving DecidableEq, Repr

namespace Value

/-- The value of a given width with the same remainder as `m`. -/
def ofNat (m : Nat) (w : Width) : Value :=
  ⟨w, m % w.modulus, Nat.mod_lt _ w.modulus_pos⟩

/-- The value of a given width with the same remainder as `z`. -/
def ofInt (z : Int) (w : Width) : Value :=
  ⟨w, (z % (w.modulus : Int)).toNat, by
    have h := w.modulus_pos
    have := Int.emod_nonneg z (b := (w.modulus : Int)) (by omega)
    have := Int.emod_lt_of_pos z (b := (w.modulus : Int)) (by omega)
    omega⟩

@[simp] theorem width_ofInt (z : Int) (w : Width) : (ofInt z w).width = w := rfl

theorem magnitude_ofInt (z : Int) (w : Width) :
    ((ofInt z w).magnitude : Int) = z % (w.modulus : Int) :=
  Int.toNat_of_nonneg (Int.emod_nonneg z (by have := w.modulus_pos; omega))

/-- The value of `bytes` bytes with the same remainder as `z`. -/
def make (z : Int) (bytes : Nat) : Except Error Value :=
  (Width.ofNat bytes).map (ofInt z)

/-- The integer nearest to zero with the value's remainder; of two, the negative one. -/
def signed (v : Value) : Int :=
  Int.bmod v.magnitude v.width.modulus

/-- The bytes of a value, the least significant one first. -/
def bytes (v : Value) : List UInt8 :=
  Bytes.ofNat v.width.bytes v.magnitude

/-- The value that some bytes denote, as wide as there are bytes. -/
def ofBytes (bs : List UInt8) : Except Error Value :=
  (Width.ofNat bs.length).map (ofNat (Bytes.toNat bs))

/-- The number `m` cut into consecutive parts, the least significant one first. -/
def cut (m : Nat) : List Width → List Value
  | [] => []
  | w :: ws => ofNat m w :: cut (m / w.modulus) ws

/-- The value cut into consecutive groups of bytes, the least significant one first. -/
def split (v : Value) (sizes : List Nat) : Except Error (List Value) :=
  (v.width.parts sizes).map (cut v.magnitude)

/-- The same signed reading in at least as many bytes. -/
def extend (v : Value) (bytes : Nat) : Except Error Value :=
  if bytes < v.width.bytes then .error (.invalidExtension v.width.bytes bytes)
  else make v.signed bytes

/-- The value that `f` gives for two values of one width. -/
def combine (f : Int → Int → Int) (v w : Value) : Except Error Value :=
  if v.width = w.width then .ok (ofInt (f v.magnitude w.magnitude) v.width)
  else .error (.widthMismatch v.width.bytes w.width.bytes)

/-- Sum modulo `256` to the common width. -/
def add (v w : Value) : Except Error Value :=
  combine (· + ·) v w

/-- Difference modulo `256` to the common width. -/
def sub (v w : Value) : Except Error Value :=
  combine (· - ·) v w

/-- The signed reading in decimal. -/
def decimal (v : Value) : String :=
  Numeral.integer v.signed

/-- The magnitude in hexadecimal, two digits for each byte. -/
def hex (v : Value) : String :=
  Numeral.hex (2 * v.width.bytes) v.magnitude

/-- The magnitude as a hexadecimal literal. -/
def hexLiteral (v : Value) : String :=
  "0x" ++ v.hex

end Value
end Octet
