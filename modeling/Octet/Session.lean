import Octet.Command.Arguments
import Octet.Loader
import Octet.LogFilter
import Octet.Session.Shell
import Octet.Text.Blank

/-!
# Sessions

What a command does and prints.

* `Session.run`, `Session.list`, `Session.step`: the three commands.
* `Session.ofArguments`: the exit code and the two texts of a command line's session.
-/

namespace Octet

namespace Session

open Shell

/-- Nothing has happened and nothing has been printed. -/
def start : Console := ⟨.empty, "", ""⟩

/-- The settings of a document, or the standard ones, with what the command line asks for. -/
def settings (disk : Disk) (config : Option String) (trace : Bool) (maxSteps : Option UInt64) :
    Shell Settings := do
  let chosen ← match config with
    | some path => liftExcept (Loader.settings disk path)
    | none => pure Settings.standard
  let effective : Settings :=
    { chosen with trace := chosen.trace || trace, maxSteps := maxSteps.or chosen.maxSteps }
  Action.emit (.configured effective)
  return effective

/-- The line about how a run ended. -/
def outcomeText : Outcome → String
  | .halted steps => "[*] Halted after " ++ Numeral.decimal steps ++ " step(s)\n"
  | .stepLimit steps => "[*] Step limit reached after " ++ Numeral.decimal steps ++ " step(s)\n"

/-- The line about the instruction at which a run failed. -/
def faultText (m : Machine) : String :=
  match m.current? with
  | some i => "[!] Faulting instruction " ++ Numeral.decimal m.ip ++ ": " ++ i.text ++ "\n"
  | none => ""

/-- Loads a program and runs it. -/
def execute (disk : Disk) (trace : Bool) (options : RunOptions) :
    Shell (Except Error Outcome × Machine) := do
  let settings ← settings disk options.config trace options.maxSteps
  let m ← Loader.machine disk options.file settings
  print ("[*] Running " ++ options.file ++ " (" ++ Numeral.decimal m.program.length ++
    " instruction(s), " ++ Numeral.decimal m.program.declarations.length ++ " variable(s))\n")
  let (result, m) ← onMachine m Machine.run
  match result with
  | .ok outcome => print (outcomeText outcome)
  | .error _ => complain (faultText m)
  return (result, m)

/-- Shows the final state of a run and, unless it is to be quiet, the statistics. -/
def summarize (m : Machine) (quiet : Bool) (seconds : String) : Shell Unit := do
  print "\n"
  printDump m
  unless quiet do print (m.tally.report seconds)

/-- Ends a run with its summary; the run's error is the session's. -/
def conclude (result : Except Error Outcome) (m : Machine) (quiet : Bool) (seconds : String) :
    Shell Unit := do
  summarize m quiet seconds
  let _ ← result
  return ()

/-- Runs a program and shows its final state, also if it fails. -/
def run (disk : Disk) (trace : Bool) (options : RunOptions) (seconds : String) : Shell Unit := do
  let (result, m) ← execute disk trace options
  conclude result m options.quiet seconds

/-- Shows the listing of a program. -/
def list (disk : Disk) (file : String) : Shell Unit := do
  let program ← Loader.program disk file
  print program.listing

/-- A number after as many blanks as make four characters. -/
def padLeft (n : Nat) : String :=
  let digits := Numeral.decimal n
  String.ofList (List.replicate (4 - digits.length) ' ') ++ digits

/-- Loads a program and shows its state. -/
def begin (disk : Disk) (trace : Bool) (file : String) (config : Option String) : Shell Machine := do
  let settings ← settings disk config trace none
  let m ← Loader.machine disk file settings
  printDump m
  return m

/-- Asks what to do with the next instruction; there is no question if none is left. -/
def ask (m : Machine) : Shell Bool :=
  match m.current? with
  | none => do
    print "[*] Halted\n"
    return false
  | some i => do
    print (padLeft m.ip ++ ": " ++ i.text ++ "  [Enter=step, q=quit] ")
    return true

/-- Whether an answer asks to quit. -/
def isQuit (answer : String) : Bool :=
  let word := Text.trim answer.toList
  word == ['q'] || word == ['Q']

/-- Does what a line of input asks for: quits, or executes an instruction and shows the state. -/
def respond (m : Machine) (line : List UInt8) : Shell (Option Machine) :=
  match String.fromUTF8? ⟨line.toArray⟩ with
  | none => throw (.unreadable "<stdin>" .notText)
  | some answer =>
    if isQuit answer then return none
    else do
      let (result, m) ← onMachine m Machine.step
      result
      printDump m
      return some m

/-- Steps through a program, one instruction for each line of input. -/
def interact (m : Machine) : List (List UInt8) → Shell Unit
  | [] => do
    let _ ← ask m
    return ()
  | line :: lines => do
    if ← ask m then
      match ← respond m line with
      | some m => interact m lines
      | none => return ()

/-- Loads a program and steps through it. -/
def step (disk : Disk) (trace : Bool) (file : String) (config : Option String) (input : List UInt8) :
    Shell Unit := do
  let m ← begin disk trace file config
  interact m (Text.byteLines input)

/-- What an invocation does. -/
def invoke (disk : Disk) (input : List UInt8) (seconds : String) (i : Invocation) : Shell Unit :=
  match i.command with
  | .run options => run disk i.trace options seconds
  | .list file => list disk file
  | .step file config => step disk i.trace file config input

/-- The lines about an error that ends a session. -/
def fatalText (e : Error) : String :=
  "\n[!] FATAL: " ++ e.message ++ "\n" ++
    String.join (e.causes.map fun cause => "    caused by: " ++ cause ++ "\n")

/-- The exit code of a session and its two texts. -/
structure Report where
  exit : Nat
  out : String
  err : String
  deriving DecidableEq, Repr

/-- The report of a session that ended. -/
def report (filter : LogFilter) : EStateM.Result Error Console Unit → Report
  | .ok _ c => ⟨0, c.out, filter.render c.world.log.toList ++ c.err⟩
  | .error e c => ⟨1, c.out, filter.render c.world.log.toList ++ c.err ++ fatalText e⟩

/-- The name and the version of the program. -/
def versionText : String := "bytevm 0.3.0\n"

/-- How the program is called. -/
def helpText : String :=
  "Byte-addressable x86-like virtual machine\n\nUsage: bytevm [--trace] <COMMAND>\n\nCommands:\n" ++
    "  run   Execute a program and dump the final state: run FILE [-c PATH] [--max-steps N] [-q]\n" ++
    "  list  Parse a program and print it: list FILE\n" ++
    "  step  Execute a program one instruction at a time: step FILE [-c PATH]\n"

/-- The report of a command line; a command line that is refused has none. -/
def ofArguments (args : List String) (disk : Disk) (input : List UInt8) (logFilter : Option String)
    (seconds : String) : Except UsageFault Report := do
  match ← Request.ofArguments args with
  | .version => return ⟨0, versionText, ""⟩
  | .help => return ⟨0, helpText, ""⟩
  | .invoke i =>
    return report (LogFilter.select i.trace logFilter) ((invoke disk input seconds i).run start)

end Session
end Octet
