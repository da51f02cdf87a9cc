/-!
# Numerals

Numbers as text: digits in a base between 2 and 16, letters of either case for the digits above
nine. Numbers are written with lowercase letters and without leading zeros unless a width asks for
them.

* `digit?_lt`: a digit is below its base.
-/

namespace Octet.Numeral

/-- The value of a digit character in `base`. -/
def digit? (base : Nat) (c : Char) : Option Nat :=
  let value :=
    if '0' ≤ c ∧ c ≤ '9' then some (c.toNat - 48)
    else if 'a' ≤ c ∧ c ≤ 'f' then some (c.toNat - 87)
    else if 'A' ≤ c ∧ c ≤ 'F' then some (c.toNat - 55)
    else none
  value.filter (· < base)

theorem digit?_lt {base d : Nat} {c : Char} (h : digit? base c = some d) : d < base := by
  unfold digit? at h
  simpa using (Option.filter_eq_some_iff.1 h).2

/-- The number that a nonempty run of digits denotes, most significant digit first. -/
def value? (base : Nat) : List Char → Option Nat
  | [] => none
  | cs => cs.foldlM (fun acc c => (digit? base c).map (acc * base + ·)) 0

/-- The same number modulo `modulus`, reduced after every digit so that it never grows. -/
def valueMod? (modulus base : Nat) : List Char → Option Nat
  | [] => none
  | cs => cs.foldlM (fun acc c => (digit? base c).map fun d => (acc * base + d) % modulus) 0

/-- The number of 64-bit words, the bound of `word64?`. -/
def wordBound : Nat := 18446744073709551616

/-- A nonempty run of decimal digits that denotes a number below `wordBound`. -/
def word64? (cs : List Char) : Option UInt64 :=
  match value? 10 cs with
  | some n => if n < wordBound then some (UInt64.ofNat n) else none
  | none => none

/-- The text without a plus sign at its front, which a number may have. -/
def dropPlus : List Char → List Char
  | '+' :: cs => cs
  | cs => cs

/-- The text without a sign at its front. -/
def dropSign : List Char → List Char
  | '+' :: cs => cs
  | '-' :: cs => cs
  | cs => cs

/-- Whether characters are digits with a point among them at most. -/
def isMantissa (cs : List Char) : Bool :=
  cs.all (fun c => c.isDigit || c == '.') && cs.any Char.isDigit && decide (cs.count '.' ≤ 1)

/-- Whether characters are nothing, or the letter of an exponent and a whole number. -/
def isExponent : List Char → Bool
  | [] => true
  | _ :: cs => !(dropSign cs).isEmpty && (dropSign cs).all Char.isDigit

/-- Whether characters are a number in decimal, with a sign, a point and an exponent at most. The
infinities and the value that is no number count as numbers. -/
def isNumber (cs : List Char) : Bool :=
  let digits := dropSign cs
  ["inf", "infinity", "nan"].contains (String.ofList (digits.map Char.toLower)) ||
    (isMantissa (digits.takeWhile fun c => c != 'e' && c != 'E') &&
      isExponent (digits.dropWhile fun c => c != 'e' && c != 'E'))

/-- A natural number in decimal. -/
def decimal (n : Nat) : String :=
  String.ofList (Nat.toDigits 10 n)

/-- An integer in decimal, with a minus sign if it is negative. -/
def integer (z : Int) : String :=
  if z < 0 then "-" ++ decimal z.natAbs else decimal z.natAbs

/-- A natural number in hexadecimal, padded with zeros to at least `width` digits. -/
def hex (width n : Nat) : String :=
  let digits := Nat.toDigits 16 n
  String.ofList (List.replicate (width - digits.length) '0' ++ digits)

end Octet.Numeral
