import Octet.Register
import Octet.Statement
import Octet.Text.Line

/-!
# Source texts

A source text is a program line by line. The first line that is no statement, or that declares a
name which is taken, decides the error; otherwise declarations and instructions are collected in the
order in which they stand.

* `Program.parse`: the program of a source text.
-/

namespace Octet.Program

/-- Whether a variable cannot have this name: it belongs to a register or an earlier variable. -/
def isTaken (declared : List String) (name : String) : Bool :=
  (Register.ofName? name).isSome || declared.contains name

/-- The program with one more statement in front. -/
def cons : Statement → Program → Program
  | .define d, p => { p with declarations := d :: p.declarations }
  | .instruction i, p => { p with code := i :: p.code }

/-- The names that a statement declares. -/
def declares : Statement → List String
  | .define d => [d.name]
  | .instruction _ => []

/-- The program of the lines from number `number` on, after lines that declare `declared`. -/
def ofLines (declared : List String) (number : Nat) : List String → Except Error Program
  | [] => .ok empty
  | line :: rest => do
    match ← Statement.parse number line with
    | none => ofLines declared (number + 1) rest
    | some statement =>
      match (declares statement).find? (isTaken declared) with
      | some name => .error (.alreadyDefined name)
      | none =>
        return cons statement (← ofLines (declares statement ++ declared) (number + 1) rest)

/-- The program of a source text. -/
def parse (source : String) : Except Error Program :=
  ofLines [] 1 (Text.lines source)

end Octet.Program
