import Octet.Machine

/-!
# State dumps

The state of a machine as text: the index of the next instruction, the registers bank by bank, and the
variables in the order of their declaration.

* `Machine.dump`: the text.
-/

namespace Octet.Machine

/-- A value in both spellings. -/
def valueText (x : Value) : String :=
  x.hexLiteral ++ " (" ++ x.decimal ++ ")"

/-- A half register and its value. -/
def halfText (m : Machine) (s : Store) (r : Register) : String :=
  match m.scope.lookup? r.name with
  | some v => "  " ++ r.name ++ "=" ++ (v.read s).hexLiteral
  | none => ""

/-- A whole register, its value and its halves. -/
def registerLine (m : Machine) (s : Store) (r : Register) : String :=
  match m.scope.lookup? r.name with
  | some v =>
    "\t" ++ r.name ++ " : " ++ valueText (v.read s) ++
      String.join (r.halves.map (m.halfText s)) ++ "\n"
  | none => ""

/-- A variable and its value. -/
def variableLine (s : Store) (entry : String × View) : String :=
  "\t" ++ entry.1 ++ " : " ++ valueText (entry.2.read s) ++ "\n"

/-- The state of the machine as text. -/
def dump (m : Machine) (s : Store) : String :=
  "ip: " ++ Numeral.decimal m.ip ++ "/" ++ Numeral.decimal m.program.length ++ "\n" ++
    "registers:\n" ++ String.join (Register.words.map (m.registerLine s)) ++
    "variables:\n" ++ String.join (m.scope.variableViews.map (variableLine s))

end Octet.Machine
