import Octet.View

/-!
# Registers

There are four banks of two bytes. Each bank has three registers: the whole bank, its low byte and
its high byte. All of them are views of one block of eight bytes, so a whole register and its halves
alias each other.

* `Register.map_view_words`, `Register.split_view`: where the registers are in their block.
* `Register.ofName?_name`: every register is found by its name.
-/

namespace Octet

/-- One of the four pairs of register bytes. -/
inductive Bank where
  | a
  | b
  | c
  | d
  deriving DecidableEq, Repr

/-- The part of a bank that a register covers. -/
inductive Part where
  | whole
  | low
  | high
  deriving DecidableEq, Repr

/-- A register: a bank and a part of it. -/
structure Register where
  bank : Bank
  part : Part
  deriving DecidableEq, Repr

namespace Bank

/-- The banks in the order of their bytes. -/
def all : List Bank :=
  [a, b, c, d]

/-- The letter that the names of the bank's registers start with. -/
def letter : Bank → String
  | a => "a"
  | b => "b"
  | c => "c"
  | d => "d"

/-- The offset of the bank's low byte. -/
def offset : Bank → Nat
  | a => 0
  | b => 2
  | c => 4
  | d => 6

end Bank

namespace Part

/-- The letter that the name of the register ends with. -/
def letter : Part → String
  | whole => "x"
  | low => "l"
  | high => "h"

/-- The number of bytes of the part. -/
def width : Part → Width
  | whole => Width.word
  | low | high => Width.byte

/-- The offset of the part in its bank. -/
def offset : Part → Nat
  | whole | low => 0
  | high => 1

end Part

namespace Register

/-- The register that `cbw` reads. -/
def al : Register := ⟨.a, .low⟩

/-- The register that `cbw` writes and `cwd` reads. -/
def ax : Register := ⟨.a, .whole⟩

/-- The register that `cwd` writes. -/
def dx : Register := ⟨.d, .whole⟩

/-- The whole register of each bank. -/
def words : List Register :=
  Bank.all.map fun bank => ⟨bank, .whole⟩

/-- The low half, then the high half of a bank. -/
def halvesOf (bank : Bank) : List Register :=
  [⟨bank, .low⟩, ⟨bank, .high⟩]

/-- Every register: the whole ones, then the halves bank by bank. -/
def all : List Register :=
  words ++ Bank.all.flatMap halvesOf

/-- The name of the register in a source line. -/
def name (r : Register) : String :=
  r.bank.letter ++ r.part.letter

/-- The number of bytes of the register. -/
def width (r : Register) : Width :=
  r.part.width

/-- The whole register of the same bank. -/
def parent (r : Register) : Register :=
  ⟨r.bank, .whole⟩

/-- The halves of a whole register; a half has none. -/
def halves (r : Register) : List Register :=
  match r.part with
  | .whole => halvesOf r.bank
  | _ => []

/-- The register with a given name. -/
def ofName? (name : String) : Option Register :=
  all.find? fun r => r.name == name

/-- The number of bytes that hold all registers. -/
def blockSize : Nat := 8

/-- The bytes of a register in the block that holds all of them. -/
def view (h : Handle) (r : Register) : View :=
  ⟨h, r.bank.offset + r.part.offset, r.width⟩

/-- The whole registers are consecutive words from the start of the block. -/
theorem map_view_words (h : Handle) :
    words.map (view h) = View.tile h 0 (List.replicate Bank.all.length Width.word) := rfl

/-- A whole register is cut into its halves. -/
theorem split_view (h : Handle) (r : Register) :
    (view h r.parent).split [1, 1] = .ok (r.parent.halves.map (view h)) := rfl

theorem ofName?_name (r : Register) : ofName? r.name = some r := by
  rcases r with ⟨bank, part⟩
  cases bank <;> cases part <;> decide

end Register
end Octet
