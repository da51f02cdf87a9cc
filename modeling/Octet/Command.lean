/-!
# Commands

What the command line can ask for: to run a program, to list it, or to step through it.

* `Invocation`: a command with the options that every command has.
* `Request`: an invocation, or a question about the program itself.
-/

namespace Octet

/-- The options of a run. -/
structure RunOptions where
  file : String
  /-- The settings document. -/
  config : Option String
  /-- A bound on the steps in place of the one in the settings. -/
  maxSteps : Option UInt64
  /-- Leave out the statistics. -/
  quiet : Bool
  deriving DecidableEq, Repr

/-- What to do with a source file. -/
inductive Command where
  /-- Execute it and show the final state. -/
  | run (options : RunOptions)
  /-- Show its listing. -/
  | list (file : String)
  /-- Execute one instruction for each line of input. -/
  | step (file : String) (config : Option String)
  deriving DecidableEq, Repr

/-- A command and whether every instruction is logged. -/
structure Invocation where
  trace : Bool
  command : Command
  deriving DecidableEq, Repr

/-- What a command line asks for. -/
inductive Request where
  | version
  | help
  | invoke (invocation : Invocation)
  deriving DecidableEq, Repr

/-- The files that a command reads. -/
def Command.paths : Command → List String
  | run options => options.config.toList ++ [options.file]
  | list file => [file]
  | step file config => config.toList ++ [file]

end Octet
