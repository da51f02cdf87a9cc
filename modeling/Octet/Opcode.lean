/-!
# Opcodes

The six mnemonics that can start a statement. Five of them are executed; `define` declares a
variable when the program is loaded.

* `ofMnemonic?_mnemonic`: every opcode is found by its mnemonic.
-/

namespace Octet

/-- What a statement asks for. -/
inductive Opcode where
  | mov
  | add
  | sub
  | cbw
  | cwd
  | define
  deriving DecidableEq, Repr

namespace Opcode

/-- Every opcode, in the order of the statistics report. -/
def all : List Opcode :=
  [mov, add, sub, cbw, cwd, define]

/-- The word that stands for the opcode in a source line. -/
def mnemonic : Opcode → String
  | mov => "mov"
  | add => "add"
  | sub => "sub"
  | cbw => "cbw"
  | cwd => "cwd"
  | define => "define"

/-- How many operands the opcode takes. -/
def arity : Opcode → Nat
  | mov | add | sub => 2
  | cbw | cwd => 0
  | define => 3

/-- Whether the machine executes the opcode; `define` acts at load time only. -/
def isExecutable : Opcode → Bool
  | define => false
  | _ => true

/-- The opcode of a mnemonic. -/
def ofMnemonic? (word : String) : Option Opcode :=
  all.find? fun op => op.mnemonic == word

theorem ofMnemonic?_mnemonic (op : Opcode) : ofMnemonic? op.mnemonic = some op := by
  cases op <;> decide

end Opcode
end Octet
