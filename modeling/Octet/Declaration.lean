import Octet.Value

/-!
# Declarations

A declaration names a variable and gives its size and its first value.

* `DataSize`: the two sizes, with their tags.
* `Declaration.make`: a declaration with a number, reduced to the size.
-/

namespace Octet

/-- The size of a variable. -/
inductive DataSize where
  | byte
  | word
  deriving DecidableEq, Repr

namespace DataSize

/-- The word for the size in a source line. -/
def tag : DataSize → String
  | byte => "db"
  | word => "dw"

/-- The number of bytes of the size. -/
def width : DataSize → Width
  | byte => Width.byte
  | word => Width.word

/-- The size of a tag. -/
def ofTag? (tag : String) : Option DataSize :=
  [byte, word].find? fun size => size.tag == tag

theorem ofTag?_tag (size : DataSize) : ofTag? size.tag = some size := by
  cases size <;> decide

/-- The size of a tag that stands in no source line. -/
def ofTag (tag : String) : Except Error DataSize :=
  match ofTag? tag with
  | some size => .ok size
  | none => .error (.badLine 0 (.badSizeTag tag))

end DataSize

/-- A variable with its first value. -/
structure Declaration where
  name : String
  size : DataSize
  value : Value
  deriving DecidableEq, Repr

namespace Declaration

/-- The declaration of a variable that starts as `literal`, reduced to its size. -/
def make (name : String) (size : DataSize) (literal : Int) : Declaration :=
  ⟨name, size, Value.ofInt literal size.width⟩

/-- The number of bytes that the variable takes. -/
def width (d : Declaration) : Width :=
  d.size.width

/-- The declaration as a source line. -/
def text (d : Declaration) : String :=
  Opcode.define.mnemonic ++ " " ++ d.name ++ " " ++ d.size.tag ++ " " ++ d.value.decimal

end Declaration
end Octet
