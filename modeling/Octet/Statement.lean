import Octet.Program

/-!
# Statements

A source line is empty or one statement: a mnemonic and its operands, between which commas may stand
anywhere. An operand that starts with a letter is a name; one that starts with a digit is a number,
in decimal or after `0x` in hexadecimal, and a sign may stand before it.

* `Statement.ofTokens`: the statement of a line's tokens.
* `Statement.parse`: the same from the text of a numbered line.
-/

namespace Octet

/-- What a source line says. -/
inductive Statement where
  | define (declaration : Declaration)
  | instruction (instruction : Instruction)
  deriving DecidableEq, Repr

namespace Statement

/-- The number that a word denotes, modulo two to the power 64. -/
def literal? : List Char → Option Nat
  | '0' :: 'x' :: digits => Numeral.valueMod? Numeral.wordBound 16 digits
  | digits => Numeral.valueMod? Numeral.wordBound 10 digits

/-- The number that a word must denote. -/
def literal (word : String) : Except LineFault Int :=
  match literal? word.toList with
  | some n => .ok n
  | none => .error (.badLiteral word)

/-- A number with its sign. -/
def applySign (sign : Char) (n : Int) : Int :=
  if sign = '-' then -n else n

/-- The operand that a word without a sign denotes. -/
def unsigned (word : String) : Except LineFault Operand :=
  if (word.toList.head?.map Char.isDigit).getD false then (literal word).map .literal
  else .ok (.name word)

/-- The operands of a statement. -/
def operands : List Token → Except LineFault (List Operand)
  | [] => .ok []
  | .word word :: rest => do
    let operand ← unsigned word
    return operand :: (← operands rest)
  | .mark ',' :: rest => operands rest
  | .mark c :: rest =>
    if c = '-' ∨ c = '+' then
      match rest with
      | .word word :: rest => do
        let n ← literal word
        return .literal (applySign c n) :: (← operands rest)
      | _ => .error (.numberExpected c)
    else .error (.strayMark c)

/-- The declaration that the operands of `define` make. -/
def declaration : List Operand → Except LineFault Declaration
  | [.name name, .name tag, .literal value] =>
    match DataSize.ofTag? tag with
    | some size => .ok (.make name size value)
    | none => .error (.badSizeTag tag)
  | _ => .error .badDefine

/-- The statement of an opcode and its operands. -/
def ofOperands (opcode : Opcode) (operands : List Operand) : Except LineFault Statement :=
  if opcode = .define then (declaration operands).map define
  else ((Instruction.ofParts opcode operands).mapError (.malformed opcode)).map instruction

/-- The statement of a line's tokens, if there are any. -/
def ofTokens : List Token → Except LineFault (Option Statement)
  | [] => .ok none
  | .mark c :: _ => .error (.mnemonicExpected (.mark c))
  | .word word :: rest =>
    match Opcode.ofMnemonic? word with
    | none => .error (.unknownMnemonic word)
    | some opcode => do
      let args ← operands rest
      return some (← ofOperands opcode args)

/-- The statement of the line with number `number`, if there is one. -/
def parse (number : Nat) (line : String) : Except Error (Option Statement) :=
  (ofTokens (Token.scan line)).mapError (.badLine number)

end Statement
end Octet
