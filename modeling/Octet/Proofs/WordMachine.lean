import Octet.Proofs.Calls

/-!
# The word machine

What programs mean, without bytes, blocks and views. A word machine has an index, four words of sixteen
bits and a cell of eight or sixteen bits for every declared variable. A half register is one byte of its
word: reading it divides the word, writing it replaces that byte. Arithmetic is on integers, and a
result is reduced to the size of its target when it is stored there.

* `WordMachine.execute`: what an instruction does.
* `WordMachine.perform`: what a call does. A call that fails leaves the machine as it is, except that a
  run keeps the steps before the one that fails.
-/

namespace Octet

/-- Eight or sixteen bits. -/
inductive Cell where
  | byte (bits : UInt8)
  | word (bits : UInt16)
  deriving DecidableEq, Repr

namespace Cell

/-- The size of a cell. -/
def size : Cell → DataSize
  | byte _ => .byte
  | word _ => .word

/-- The number of bytes of a cell. -/
def width (c : Cell) : Width :=
  c.size.width

/-- The number that a cell holds. -/
def toNat : Cell → Nat
  | byte bits => bits.toNat
  | word bits => bits.toNat

/-- A cell of a given size that holds an integer modulo two to the number of its bits. -/
def ofInt (z : Int) : DataSize → Cell
  | .byte => byte (UInt8.ofInt z)
  | .word => word (UInt16.ofInt z)

theorem toNat_lt (c : Cell) : c.toNat < c.width.modulus := by
  cases c with
  | byte bits => exact bits.toNat_lt
  | word bits => exact bits.toNat_lt

/-- The cell as a value. -/
def value (c : Cell) : Value :=
  ⟨c.width, c.toNat, c.toNat_lt⟩

end Cell

/-- An index, four words and a cell for every variable. -/
structure WordMachine where
  ip : Nat
  word : Bank → UInt16
  cell : String → Option Cell

namespace WordMachine

/-- The machine before its first instruction: zeros in the registers, and the declared values. -/
def start (p : Program) : WordMachine where
  ip := 0
  word _ := 0
  cell name := (p.declarations.find? fun d => d.name == name).map fun d => Cell.ofInt d.value.magnitude d.size

/-- What a register holds. -/
def register (f : WordMachine) (r : Register) : Cell :=
  match r.part with
  | .whole => .word (f.word r.bank)
  | .low => .byte (f.word r.bank % 256).toUInt8
  | .high => .byte (f.word r.bank / 256).toUInt8

/-- What a name holds. -/
def read? (f : WordMachine) (name : String) : Option Cell :=
  match Register.ofName? name with
  | some r => some (f.register r)
  | none => f.cell name

/-- What a name must hold. -/
def read (f : WordMachine) (name : String) : Except Error Cell :=
  match f.read? name with
  | some c => .ok c
  | none => .error (.undefined name)

/-- A word with an integer stored into one part of it. -/
def replace (word : UInt16) (z : Int) : Part → UInt16
  | .whole => UInt16.ofInt z
  | .low => UInt16.ofNat (256 * (word.toNat / 256) + (UInt8.ofInt z).toNat)
  | .high => UInt16.ofNat (256 * (UInt8.ofInt z).toNat + word.toNat % 256)

/-- The machine with an integer stored under a name. -/
def store (f : WordMachine) (name : String) (z : Int) : WordMachine :=
  match Register.ofName? name with
  | some r => { f with word := fun bank => if bank = r.bank then replace (f.word bank) z r.part else f.word bank }
  | none => { f with cell := fun n => if n = name then (f.cell n).map fun c => Cell.ofInt z c.size else f.cell n }

/-- The width and the number of a source. A literal is reduced to the width of the target. -/
def source (f : WordMachine) (w : Width) : Operand → Except Error (Width × Int)
  | .literal z => .ok (w, z % (w.modulus : Int))
  | .name n => do
    let c ← f.read n
    return (c.width, c.toNat)

/-- What an instruction does to the words and cells. -/
def execute (f : WordMachine) : Instruction → Except Error WordMachine
  | .binary operation target operand => do
    let old ← f.read target
    let (w, z) ← f.source old.width operand
    if w = old.width then .ok (f.store target (operation.eval old.toNat z))
    else .error (.widthMismatch old.width.bytes w.bytes)
  | .cbw => .ok (f.store Register.ax.name (f.word .a % 256).toUInt8.toInt8.toInt)
  | .cwd => .ok (f.store Register.dx.name (if 0x8000 ≤ f.word .a then 0xFFFF else 0))

/-- The machine after the next instruction. -/
def step (p : Program) (f : WordMachine) : Except Error WordMachine :=
  match p.code[f.ip]? with
  | none => .error (.pastEnd f.ip p.length)
  | some i => (f.execute i).map fun g => { g with ip := f.ip + 1 }

/-- Executes at most `left` instructions after `steps` others, the bound permitting. -/
def runFrom (p : Program) (bound : Option UInt64) (steps : Nat) : Nat → WordMachine → Answer × WordMachine
  | 0, f => (.ok (.ended (.halted steps)), f)
  | left + 1, f =>
    if bound.any fun n => decide (n.toNat ≤ steps) then (.ok (.ended (.stepLimit steps)), f)
    else
      match f.step p with
      | .ok g => runFrom p bound (steps + 1) left g
      | .error e => (.error e, f)

/-- The machine with a value written to a name. -/
def write (f : WordMachine) (name : String) (x : Value) : Except Error WordMachine := do
  let old ← f.read name
  if x.width = old.width then .ok (f.store name x.magnitude)
  else .error (.widthMismatch old.width.bytes x.width.bytes)

/-- An answer and the machine after it, if only success changes the machine. -/
def settle (f : WordMachine) : Except Error WordMachine → Answer × WordMachine
  | .ok g => (.ok .done, g)
  | .error e => (.error e, f)

/-- The answer to a call, and the machine after it. -/
def perform (p : Program) (bound : Option UInt64) (f : WordMachine) : Call → Answer × WordMachine
  | .step => f.settle (f.step p)
  | .run => runFrom p bound 0 (p.length - f.ip) f
  | .write name x => f.settle (f.write name x)

end WordMachine
end Octet
