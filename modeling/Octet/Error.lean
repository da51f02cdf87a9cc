import Octet.Opcode
import Octet.Token
import Octet.Text.Numeral

/-!
# Errors

Everything that can go wrong, by cause. Errors carry the data of the cause; their wording is one
function, `Error.message`, and what lies behind an error is `Error.causes`.

* `LineFault`: why a source line is no statement.
* `InstructionFault`: why an opcode and its operands make no instruction.
* `FileFault`: why a file could not be read.
* `Error`: any of these in context, and the errors of values, memory and execution.
-/

namespace Octet

/-- Why an opcode with operands is not an instruction. -/
inductive InstructionFault where
  /-- The opcode is a directive. -/
  | notExecutable
  /-- The opcode takes a different number of operands. -/
  | operandCount (expected actual : Nat)
  /-- The destination is a number. -/
  | literalDestination (value : Int)
  deriving DecidableEq, Repr

/-- Why a source line is not a statement. -/
inductive LineFault where
  /-- The line starts with a mark. -/
  | mnemonicExpected (found : Token)
  /-- The first word is not a mnemonic. -/
  | unknownMnemonic (word : String)
  /-- A sign is not followed by a word. -/
  | numberExpected (sign : Char)
  /-- A mark stands where none can. -/
  | strayMark (char : Char)
  /-- A word that must be a number is none. -/
  | badLiteral (text : String)
  /-- The operands of `define` are not a name, a size and a number. -/
  | badDefine
  /-- The size of a `define` is not a size tag. -/
  | badSizeTag (tag : String)
  /-- The operands do not fit the opcode. -/
  | malformed (opcode : Opcode) (fault : InstructionFault)
  deriving DecidableEq, Repr

/-- Why a file could not be read. -/
inductive FileFault where
  | missing
  | isDirectory
  | notDirectory
  | notText
  deriving DecidableEq, Repr

/-- An error of the assembler, the machine or the command line. -/
inductive Error where
  /-- A source line is not a statement. Lines count from one; zero stands for no line. -/
  | badLine (line : Nat) (fault : LineFault)
  /-- A name is bound to nothing. -/
  | undefined (name : String)
  /-- A value does not have the width that its place asks for. -/
  | widthMismatch (expected actual : Nat)
  /-- A word is not a mnemonic. -/
  | unknownOpcode (word : String)
  /-- The sizes do not cut `width` bytes into nonempty parts. -/
  | invalidSplit (width : Nat) (sizes : List Nat)
  /-- No value has this width. -/
  | invalidWidth (width : Nat)
  /-- An extension to fewer bytes. -/
  | invalidExtension (source target : Nat)
  /-- An opcode with operands is not an instruction. -/
  | badInstruction (opcode : Opcode) (fault : InstructionFault)
  /-- A variable has the name of a register or of another variable. -/
  | alreadyDefined (name : String)
  /-- There is no instruction at `ip`. -/
  | pastEnd (ip length : Nat)
  /-- A range of bytes reaches beyond its block. -/
  | outOfBounds (offset width length : Nat)
  /-- A file could not be read. -/
  | unreadable (path : String) (fault : FileFault)
  /-- A settings document was refused. -/
  | badSettings
  deriving DecidableEq, Repr

/-- A word or number in the quotes that messages use. -/
def quoted (text : String) : String :=
  "`" ++ text ++ "`"

/-- A list of sizes as messages show it: `[1, 2]`. -/
def sizeList (sizes : List Nat) : String :=
  "[" ++ ", ".intercalate (sizes.map Numeral.decimal) ++ "]"

namespace InstructionFault

/-- The wording of an instruction fault. -/
def message (opcode : Opcode) : InstructionFault → String
  | notExecutable => "`define` is a load-time directive and cannot be executed"
  | operandCount expected actual =>
    quoted opcode.mnemonic ++ " takes " ++ Numeral.decimal expected ++ " operand(s), got " ++
      Numeral.decimal actual
  | literalDestination value => "undefined variable " ++ quoted (Numeral.integer value)

end InstructionFault

namespace LineFault

/-- The wording of a line fault. -/
def message : LineFault → String
  | mnemonicExpected found => "expected a mnemonic, found " ++ quoted found.text
  | unknownMnemonic word => "unrecognized mnemonic " ++ quoted word
  | numberExpected sign => "expected a number after " ++ quoted (String.singleton sign)
  | strayMark char => "unexpected " ++ quoted (String.singleton char)
  | badLiteral text => "invalid literal " ++ quoted text
  | badDefine => "expected `define <name> db|dw <literal>`"
  | badSizeTag tag => "unknown size tag " ++ quoted tag
  | malformed opcode _ => "malformed " ++ quoted opcode.mnemonic ++ " instruction"

/-- The error behind a line fault: an unknown opcode or an ill-formed instruction. -/
def cause? : LineFault → Option Error
  | unknownMnemonic word => some (.unknownOpcode word)
  | malformed opcode fault => some (.badInstruction opcode fault)
  | _ => none

end LineFault

namespace FileFault

/-- The wording of a file fault. -/
def message : FileFault → String
  | missing => "No such file or directory (os error 2)"
  | isDirectory => "Is a directory (os error 21)"
  | notDirectory => "Not a directory (os error 20)"
  | notText => "stream did not contain valid UTF-8"

end FileFault

namespace Error

/-- The wording of an error. -/
def message : Error → String
  | badLine line fault => "line " ++ Numeral.decimal line ++ ": " ++ fault.message
  | undefined name => "undefined variable " ++ quoted name
  | widthMismatch expected actual =>
    "width mismatch: expected " ++ Numeral.decimal expected ++ " byte(s), got " ++
      Numeral.decimal actual
  | unknownOpcode word => "unknown opcode " ++ quoted word
  | invalidSplit width sizes =>
    "cannot split a " ++ Numeral.decimal width ++ "-byte value into " ++ sizeList sizes
  | invalidWidth width =>
    "invalid width " ++ Numeral.decimal width ++ ": must be between 1 and 8 bytes"
  | invalidExtension source target =>
    "cannot sign-extend a " ++ Numeral.decimal source ++ "-byte value to " ++
      Numeral.decimal target ++ " byte(s)"
  | badInstruction opcode fault => fault.message opcode
  | alreadyDefined name => quoted name ++ " is already defined"
  | pastEnd ip length =>
    "instruction pointer " ++ Numeral.decimal ip ++ " out of range for a program of " ++
      Numeral.decimal length ++ " instruction(s)"
  | outOfBounds offset width length =>
    "view [" ++ Numeral.decimal offset ++ ", " ++ Numeral.decimal offset ++ "+" ++
      Numeral.decimal width ++ ") exceeds buffer of " ++ Numeral.decimal length ++ " byte(s)"
  | unreadable path _ => "could not read " ++ quoted path
  | badSettings => "invalid configuration"

/-- The wordings of what lies behind an error, nearest first. -/
def causes : Error → List String
  | badLine _ fault => (fault.cause?.map message).toList
  | unreadable _ fault => [fault.message]
  | badSettings => ["JSON"]
  | _ => []

end Error
end Octet
