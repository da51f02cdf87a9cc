import Octet.Text.Numeral

/-!
# Reading what was written in digits

A number that is written in a base between 2 and 16 is read back as itself. Reading with a reduction
after every digit gives the remainder of the number, however many digits there are.

* `value?_toDigits`: **the digits of a number denote it.**
* `valueMod?_eq`: the reduced reading is the remainder of the reading.
-/

namespace Octet.Numeral

theorem digit?_digitChar {base d : Nat} (hd : d < base) (hb : base ≤ 16) :
    digit? base (Nat.digitChar d) = some d := by
  have hvalue : ∀ d < 16,
      (if '0' ≤ Nat.digitChar d ∧ Nat.digitChar d ≤ '9' then some ((Nat.digitChar d).toNat - 48)
      else if 'a' ≤ Nat.digitChar d ∧ Nat.digitChar d ≤ 'f' then some ((Nat.digitChar d).toNat - 87)
      else if 'A' ≤ Nat.digitChar d ∧ Nat.digitChar d ≤ 'F' then some ((Nat.digitChar d).toNat - 55)
      else none) = some d := by decide
  unfold digit?
  rw [hvalue d (by omega)]
  simp [hd]

theorem value?_of_ne_nil {base : Nat} {cs : List Char} (h : cs ≠ []) :
    value? base cs = cs.foldlM (fun acc c => (digit? base c).map (acc * base + ·)) 0 := by
  cases cs with
  | nil => exact absurd rfl h
  | cons c cs => rfl

theorem valueMod?_of_ne_nil {modulus base : Nat} {cs : List Char} (h : cs ≠ []) :
    valueMod? modulus base cs =
      cs.foldlM (fun acc c => (digit? base c).map fun d => (acc * base + d) % modulus) 0 := by
  cases cs with
  | nil => exact absurd rfl h
  | cons c cs => rfl

/-- One more digit at the end. -/
theorem value?_concat {base d n : Nat} {cs : List Char} {c : Char} (hn : value? base cs = some n)
    (hd : digit? base c = some d) : value? base (cs ++ [c]) = some (n * base + d) := by
  have hcs : cs ≠ [] := by
    rintro rfl
    cases hn
  rw [value?_of_ne_nil hcs] at hn
  rw [value?_of_ne_nil (by simp), List.foldlM_append, hn]
  simp [hd]

/-- **The digits of a number denote it.** -/
theorem value?_toDigits {base : Nat} (hbase : 1 < base) (hb : base ≤ 16) (n : Nat) :
    value? base (Nat.toDigits base n) = some n := by
  induction n using Nat.base_induction base hbase with
  | single d hd =>
    rw [Nat.toDigits_of_lt_base hd, value?_of_ne_nil (by simp)]
    simp [digit?_digitChar hd hb]
  | digit n d hd hn ih =>
    rw [← Nat.toDigits_append_toDigits hbase hn hd, Nat.toDigits_of_lt_base hd,
      value?_concat ih (digit?_digitChar hd hb), Nat.mul_comm]

/-- Reduction after every digit keeps the remainder. -/
theorem foldlM_valueMod (modulus base : Nat) (cs : List Char) : ∀ acc,
    cs.foldlM (fun acc c => (digit? base c).map fun d => (acc * base + d) % modulus) (acc % modulus) =
      (cs.foldlM (fun acc c => (digit? base c).map (acc * base + ·)) acc).map (· % modulus) := by
  induction cs with
  | nil => intro acc; rfl
  | cons c cs ih =>
    intro acc
    rw [List.foldlM_cons, List.foldlM_cons]
    cases hd : digit? base c with
    | none => rfl
    | some d =>
      -- the remainder of `acc` may stand for `acc` in the next digit
      have hacc : (acc % modulus * base + d) % modulus = (acc * base + d) % modulus := by
        rw [Nat.add_mod, Nat.mod_mul_mod, ← Nat.add_mod]
      simp only [Option.map_some, Option.bind_eq_bind, Option.bind_some, hacc]
      exact ih (acc * base + d)

/-- **The reduced reading is the remainder of the reading.** -/
theorem valueMod?_eq (modulus base : Nat) (cs : List Char) :
    valueMod? modulus base cs = (value? base cs).map (· % modulus) := by
  by_cases hcs : cs = []
  · subst hcs; rfl
  · have h := foldlM_valueMod modulus base cs 0
    rw [Nat.zero_mod] at h
    rw [valueMod?_of_ne_nil hcs, value?_of_ne_nil hcs, h]

theorem valueMod?_lt {modulus base n : Nat} {cs : List Char} (hm : 0 < modulus)
    (h : valueMod? modulus base cs = some n) : n < modulus := by
  rw [valueMod?_eq] at h
  obtain ⟨k, -, rfl⟩ := Option.map_eq_some_iff.1 h
  exact Nat.mod_lt k hm

end Octet.Numeral
