import Octet.Opcode
import Octet.Text.Numeral

/-!
# Tallies

How many instructions have been executed, in all and by opcode, and the report about it.

* `Tally.record`: one more executed instruction.
* `Tally.report`: the report.
-/

namespace Octet

/-- Numbers of executed instructions. -/
structure Tally where
  retired : Nat
  mov : Nat
  add : Nat
  sub : Nat
  cbw : Nat
  cwd : Nat
  deriving DecidableEq, Repr

namespace Tally

/-- Nothing has been executed. -/
def zero : Tally := ⟨0, 0, 0, 0, 0, 0⟩

/-- One more instruction with this opcode. A directive counts in the total only. -/
def record (t : Tally) (opcode : Opcode) : Tally :=
  let t := { t with retired := t.retired + 1 }
  match opcode with
  | .mov => { t with mov := t.mov + 1 }
  | .add => { t with add := t.add + 1 }
  | .sub => { t with sub := t.sub + 1 }
  | .cbw => { t with cbw := t.cbw + 1 }
  | .cwd => { t with cwd := t.cwd + 1 }
  | .define => t

/-- The number of instructions with this opcode. -/
def count (t : Tally) : Opcode → Nat
  | .mov => t.mov
  | .add => t.add
  | .sub => t.sub
  | .cbw => t.cbw
  | .cwd => t.cwd
  | .define => 0

/-- A text followed by blanks up to a width. -/
def padRight (width : Nat) (text : String) : String :=
  text ++ String.ofList (List.replicate (width - text.length) ' ')

/-- A line of the report made of one character. -/
def rule (c : Char) : String :=
  String.ofList (List.replicate 58 c)

/-- The report, with `seconds` as the time that the run took. -/
def report (t : Tally) (seconds : String) : String :=
  let mix := (Opcode.all.filter Opcode.isExecutable).map fun op =>
    "  " ++ padRight 22 op.mnemonic ++ " " ++ Numeral.decimal (t.count op)
  let lines :=
    ["", rule '=', "EXECUTION STATISTICS", rule '=', padRight 24 "host_seconds" ++ " " ++ seconds ++ " s",
      padRight 24 "sim_insts" ++ " " ++ Numeral.decimal t.retired, rule '-', "INSTRUCTION MIX"] ++
      mix ++ [rule '=']
  String.join (lines.map (· ++ "\n"))

end Tally
end Octet
