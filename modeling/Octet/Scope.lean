import Octet.Declaration
import Octet.Register
import Octet.World

/-!
# Scopes

A scope gives every name of a machine its view: the declared variables, laid out one after the other
in a block of their own, and the registers, which share a second block. Several names may have views
of the same bytes, and a name can be given another view later.

* `Scope.load`: the scope of some declarations.
* `Scope.lookup?_bind`: a name that has been bound anew has the new view, the others keep theirs.
-/

namespace Octet

/-- The names of a machine and their views. -/
structure Scope where
  entries : List (String × View)
  /-- The declared variables, in order. -/
  declared : List String
  /-- The block of the variables. -/
  data : Handle
  /-- The block of the registers. -/
  registers : Handle
  deriving DecidableEq, Repr

namespace Scope

/-- The entries with `v` as the view of `name`; a new name comes last. -/
def put (name : String) (v : View) : List (String × View) → List (String × View)
  | [] => [(name, v)]
  | (n, w) :: rest => if n = name then (n, v) :: rest else (n, w) :: put name v rest

/-- The view of `name` in some entries, if it has one. -/
def find? (name : String) : List (String × View) → Option View
  | [] => none
  | (n, w) :: rest => if n = name then some w else find? name rest

theorem find?_put (name other : String) (v : View) (entries : List (String × View)) :
    find? other (put name v entries) = if other = name then some v else find? other entries := by
  induction entries with
  | nil => grind [put, find?]
  | cons entry rest ih => grind [put, find?]

/-- The view of a name, if it has one. -/
def lookup? (scope : Scope) (name : String) : Option View :=
  find? name scope.entries

/-- The view of a name. -/
def get (scope : Scope) (name : String) : Except Error View :=
  match scope.lookup? name with
  | some v => .ok v
  | none => .error (.undefined name)

/-- The scope with `v` as the view of `name`. -/
def bind (scope : Scope) (name : String) (v : View) : Scope :=
  { scope with entries := put name v scope.entries }

theorem lookup?_bind (scope : Scope) (name other : String) (v : View) :
    (scope.bind name v).lookup? other = if other = name then some v else scope.lookup? other :=
  find?_put name other v scope.entries

/-- The value of a name. -/
def read (scope : Scope) (s : Store) (name : String) : Except Error Value :=
  (scope.get name).map (View.read s)

/-- Writes a value through the view of a name. -/
def write (scope : Scope) (s : Store) (name : String) (x : Value) : Except Error Store := do
  let v ← scope.get name
  v.write s x

/-- The value of an operand. A number is reduced to `width` bytes; a name keeps its own width. -/
def resolve (scope : Scope) (s : Store) (operand : Operand) (width : Nat) : Except Error Value :=
  match operand with
  | .name n => scope.read s n
  | .literal z => Value.make z width

/-- The declared variables with their views, in order. -/
def variableViews (scope : Scope) : List (String × View) :=
  scope.declared.filterMap fun name => (scope.lookup? name).map fun v => (name, v)

/-- Binds a name that must be new. -/
def bindNew (scope : Scope) (name : String) (v : View) : Except Error Scope :=
  if (scope.lookup? name).isSome then .error (.alreadyDefined name) else .ok (scope.bind name v)

/-- Gives each declared variable the next place in the block of the variables. -/
def bindVariables (scope : Scope) (offset : Nat) : List Declaration → Action Scope
  | [] => pure scope
  | d :: ds => do
    let v ← Action.view scope.data offset d.width.bytes
    Action.write v d.value
    Action.emit (.bound d.name offset d.width.bytes d.value)
    let scope ← scope.bindNew d.name v
    bindVariables { scope with declared := scope.declared ++ [d.name] } (offset + d.width.bytes) ds

/-- Gives each register its view. -/
def bindRegisters (scope : Scope) : List Register → Except Error Scope
  | [] => .ok scope
  | r :: rs => do
    let scope ← scope.bindNew r.name (r.view scope.registers)
    bindRegisters scope rs

/-- The scope of some declarations, in two new blocks. -/
def load (declarations : List Declaration) : Action Scope := do
  let data ← Action.allocZero (Width.total (declarations.map Declaration.width))
  let registers ← Action.allocZero Register.blockSize
  let scope ← bindVariables ⟨[], [], data, registers⟩ 0 declarations
  bindRegisters scope Register.all

end Scope
end Octet
