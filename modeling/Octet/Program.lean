import Octet.Declaration
import Octet.Instruction

/-!
# Programs

A program is a list of declarations and a list of instructions, each in source order.

* `Program.listing`: the program as source text, declarations first.
-/

namespace Octet

/-- Declarations and instructions, each in source order. -/
structure Program where
  declarations : List Declaration
  code : List Instruction
  deriving DecidableEq, Repr

namespace Program

/-- The program without statements. -/
def empty : Program := ⟨[], []⟩

/-- The number of bytes that the variables take together. -/
def dataSize (p : Program) : Nat :=
  Width.total (p.declarations.map Declaration.width)

/-- The number of instructions. -/
def length (p : Program) : Nat :=
  p.code.length

/-- The statements of the program as source lines, declarations first. -/
def lines (p : Program) : List String :=
  p.declarations.map Declaration.text ++ p.code.map Instruction.text

/-- The program as source text. -/
def listing (p : Program) : String :=
  String.join (p.lines.map (· ++ "\n"))

end Program
end Octet
