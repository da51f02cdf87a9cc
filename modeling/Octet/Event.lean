import Octet.Instruction
import Octet.Settings
import Octet.Text.Blank
import Octet.Text.Line
import Octet.Value

/-!
# Log events

What a machine and the command line report while they work. An event has a level and a target, the
part of the program that it comes from; a log shows it as one line.

* `Event.line`: the line of an event.
* `Event.transcript`: the lines of a log.
-/

namespace Octet

/-- How much an event matters; later levels matter less. -/
inductive Level where
  | error
  | warn
  | info
  | debug
  | trace
  deriving DecidableEq, Repr

namespace Level

/-- The position of a level, counted from one. -/
def rank : Level → Nat
  | error => 1
  | warn => 2
  | info => 3
  | debug => 4
  | trace => 5

/-- The word for a level. -/
def label : Level → String
  | error => "ERROR"
  | warn => "WARN"
  | info => "INFO"
  | debug => "DEBUG"
  | trace => "TRACE"

end Level

/-- Something that happened. -/
inductive Event where
  /-- A program is about to be loaded. -/
  | loading (count dataBytes instructions : Nat)
  /-- A variable got its place and its first value. -/
  | bound (name : String) (offset width : Nat) (value : Value)
  /-- The instruction at `ip` is about to be executed. -/
  | step (ip : Nat) (instruction : Instruction)
  /-- `dx` names a new block that holds `value`. -/
  | detached (value : Value)
  /-- The settings that are in force. -/
  | configured (settings : Settings)
  /-- A source file of this many bytes was read. -/
  | sourceRead (path : String) (bytes : Nat)
  deriving DecidableEq, Repr

namespace Event

/-- The level of an event. -/
def level : Event → Level
  | loading .. | bound .. | configured _ | sourceRead .. => .debug
  | step .. => .trace
  | detached _ => .warn

/-- The part of the program that an event comes from. -/
def target : Event → String
  | loading .. | step .. | detached _ => "bytevm_core::core::machine"
  | bound .. => "bytevm_core::core::bindings"
  | configured _ => "bytevm"
  | sourceRead .. => "bytevm_core::sim::loader"

/-- What an event says, without its data. -/
def message : Event → String
  | loading .. => "loading program"
  | bound .. => "bind variable"
  | step .. => "step"
  | detached _ => "cwd rebinding dx; dl/dh no longer alias it"
  | configured _ => "effective configuration"
  | sourceRead .. => "loaded source"

/-- The data of an event, by name. -/
def fields : Event → List (String × String)
  | loading count dataBytes instructions =>
    [("variables", Numeral.decimal count), ("data_bytes", Numeral.decimal dataBytes),
      ("instructions", Numeral.decimal instructions)]
  | bound name offset width value =>
    [("name", name), ("offset", Numeral.decimal offset), ("width", Numeral.decimal width),
      ("value", value.decimal)]
  | step ip instruction => [("ip", Numeral.decimal ip), ("instruction", instruction.text)]
  | detached value => [("value", value.decimal)]
  | configured settings => [("config", settings.text)]
  | sourceRead path bytes => [("path", path), ("bytes", Numeral.decimal bytes)]

/-- The names of what an event has: its message and its data. -/
def fieldNames (e : Event) : List String :=
  "message" :: e.fields.map (·.1)

/-- The line that a log shows for an event. -/
def line (e : Event) : String :=
  e.level.label ++ " " ++ e.target ++ ": " ++ e.message ++
    String.join (e.fields.map fun field => " " ++ field.1 ++ "=" ++ field.2)

/-- The lines of a log without the blanks at their fronts. A name in an event can make more than one. -/
def transcript (events : List Event) : List String :=
  (Text.lines (String.join (events.map fun e => e.line ++ "\n"))).map fun line =>
    String.ofList (line.toList.dropWhile Text.isBlank)

end Event
end Octet
