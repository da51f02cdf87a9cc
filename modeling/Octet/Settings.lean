import Octet.Text.Numeral

/-!
# Settings

What can be chosen about a run: whether each instruction is logged, how many instructions one run may
execute, and where `cwd` puts the upper half of its result.

* `Settings.text`: the settings as the log shows them.
-/

namespace Octet

/-- Where `cwd` puts the upper half of its result. -/
inductive CwdMode where
  /-- Into the bytes of `dx`, where `dl` and `dh` see it. -/
  | writeThrough
  /-- Into a new block that `dx` names from then on; `dl` and `dh` keep their bytes. -/
  | rebind
  deriving DecidableEq, Repr

/-- The settings of a machine. -/
structure Settings where
  /-- Log every instruction before it is executed. -/
  trace : Bool
  /-- The most instructions that one run executes, if there is a bound. -/
  maxSteps : Option UInt64
  cwdMode : CwdMode
  deriving DecidableEq, Repr

/-- The name of a mode. -/
def CwdMode.name : CwdMode → String
  | writeThrough => "WriteThrough"
  | rebind => "Rebind"

namespace Settings

/-- No trace, no bound, results written through. -/
def standard : Settings :=
  ⟨false, none, .writeThrough⟩

instance : Inhabited Settings := ⟨standard⟩

/-- A bound on the steps as the log shows it. -/
def boundText : Option UInt64 → String
  | none => "None"
  | some n => "Some(" ++ Numeral.decimal n.toNat ++ ")"

/-- The settings as the log shows them. -/
def text (s : Settings) : String :=
  "Config \x7b general: GeneralConfig \x7b trace_instructions: " ++
    (if s.trace then "true" else "false") ++ ", max_steps: " ++ boundText s.maxSteps ++
    " \x7d, engine: EngineConfig \x7b cwd_mode: " ++ s.cwdMode.name ++ " \x7d \x7d"

end Settings
end Octet
