import Octet.Error

/-!
# Instructions

An instruction is an opcode with the operands that it takes. The destination of an operation is
always a name; the source is a name or a number, and a number has no width of its own.

* `Instruction.ofParts`: an instruction from an opcode and any list of operands.
* `Instruction.text`: the instruction as a source line.
-/

namespace Octet

/-- A source operand. -/
inductive Operand where
  | name (n : String)
  | literal (z : Int)
  deriving DecidableEq, Repr

/-- The three operations that combine a destination and a source. -/
inductive Operation where
  | mov
  | add
  | sub
  deriving DecidableEq, Repr

/-- An executable instruction. -/
inductive Instruction where
  /-- Moves, adds or subtracts the source into the destination. -/
  | binary (operation : Operation) (target : String) (source : Operand)
  /-- Extends `al` into `ax`. -/
  | cbw
  /-- Extends `ax` into `dx` and `ax`. -/
  | cwd
  deriving DecidableEq, Repr

/-- The operand as it stands in a source line. -/
def Operand.text : Operand → String
  | name n => n
  | literal z => Numeral.integer z

/-- The opcode of an operation. -/
def Operation.opcode : Operation → Opcode
  | mov => .mov
  | add => .add
  | sub => .sub

namespace Instruction

/-- The opcode of an instruction. -/
def opcode : Instruction → Opcode
  | binary operation _ _ => operation.opcode
  | cbw => .cbw
  | cwd => .cwd

/-- An operation on its operands. The first one must be a name. -/
def ofOperands (operation : Operation) : List Operand → Except InstructionFault Instruction
  | [.name target, source] => .ok (binary operation target source)
  | [.literal value, _] => .error (.literalDestination value)
  | operands => .error (.operandCount operation.opcode.arity operands.length)

/-- The instruction without operands, if there are none. -/
def ofNoOperands (instruction : Instruction) (operands : List Operand) :
    Except InstructionFault Instruction :=
  if operands.isEmpty then .ok instruction
  else .error (.operandCount instruction.opcode.arity operands.length)

/-- The instruction of an opcode and its operands. -/
def ofParts (opcode : Opcode) (operands : List Operand) : Except InstructionFault Instruction :=
  match opcode with
  | .mov => ofOperands .mov operands
  | .add => ofOperands .add operands
  | .sub => ofOperands .sub operands
  | .cbw => ofNoOperands cbw operands
  | .cwd => ofNoOperands cwd operands
  | .define => .error .notExecutable

/-- The instruction as a source line. -/
def text : Instruction → String
  | binary operation target source =>
    operation.opcode.mnemonic ++ " " ++ target ++ ", " ++ source.text
  | cbw => Opcode.cbw.mnemonic
  | cwd => Opcode.cwd.mnemonic

end Instruction
end Octet
