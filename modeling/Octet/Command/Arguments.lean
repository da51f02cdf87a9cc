import Octet.Command
import Octet.Text.Numeral

/-!
# Command line arguments

Arguments are read from left to right in two contexts: options before the command's name, then options
and operands of the command. Options have a long name and may have a letter; letters can be joined,
and a value follows its option as the next argument, after `=`, or directly after the letter. After
`--` everything is an operand. An option is given at most once in a context.

* `Request.ofArguments`: the request of a command line.
-/

namespace Octet

/-- Why a command line is refused. -/
inductive UsageFault where
  | unknownOption (text : String)
  | repeatedOption (text : String)
  | unexpectedValue (text : String)
  | missingValue (text : String)
  | invalidValue (option value : String)
  | unexpectedOperand (text : String)
  | missingFile
  | unknownCommand (text : String)
  | missingCommand
  deriving DecidableEq, Repr

/-- The wording of a usage fault. -/
def UsageFault.message : UsageFault → String
  | unknownOption text => "unexpected argument '" ++ text ++ "' found"
  | repeatedOption text => "the argument '" ++ text ++ "' cannot be used multiple times"
  | unexpectedValue text => "unexpected value for '" ++ text ++ "' found"
  | missingValue text => "a value is required for '" ++ text ++ "' but none was supplied"
  | invalidValue option value => "invalid value '" ++ value ++ "' for '" ++ option ++ "'"
  | unexpectedOperand text => "unexpected argument '" ++ text ++ "' found"
  | missingFile => "the following required arguments were not provided: <FILE>"
  | unknownCommand text => "unrecognized subcommand '" ++ text ++ "'"
  | missingCommand => "a subcommand is required but one was not provided"

namespace Arguments

/-- An option that stands alone. -/
inductive Switch where
  | trace
  | quiet
  | version
  | help
  deriving DecidableEq, Repr

/-- An option that has a value. -/
inductive Setting where
  | config
  | maxSteps
  deriving DecidableEq, Repr

/-- An option of the command line. -/
inductive Flag where
  | switch (s : Switch)
  | setting (s : Setting)
  deriving DecidableEq, Repr

namespace Flag

/-- The long name of an option. -/
def long : Flag → String
  | switch .trace => "trace"
  | switch .quiet => "quiet"
  | switch .version => "version"
  | switch .help => "help"
  | setting .config => "config"
  | setting .maxSteps => "max-steps"

/-- The letter of an option, if it has one. -/
def short? : Flag → Option Char
  | switch .trace => none
  | switch .quiet => some 'q'
  | switch .version => some 'V'
  | switch .help => some 'h'
  | setting .config => some 'c'
  | setting .maxSteps => none

end Flag

/-- The part of the command line that is read: before the command, or a command's own. -/
inductive Context where
  | top
  | run
  | list
  | step
  deriving DecidableEq, Repr

/-- The options of a context. -/
def Context.flags : Context → List Flag
  | top => [.switch .trace, .switch .help, .switch .version]
  | run => [.switch .trace, .switch .help, .switch .quiet, .setting .config, .setting .maxSteps]
  | list => [.switch .trace, .switch .help]
  | step => [.switch .trace, .switch .help, .setting .config]

/-- The context of a command's name. -/
def Context.ofName? : String → Option Context
  | "run" => some run
  | "list" => some list
  | "step" => some step
  | _ => none

/-- What an argument turns out to be. -/
inductive Item where
  | switch (s : Switch)
  | setting (s : Setting) (value : String)
  | operand (text : String)
  | fault (f : UsageFault)
  deriving DecidableEq, Repr

/-- Whether an argument is an option rather than an operand or a value. -/
def isOption (arg : String) : Bool :=
  match arg.toList with
  | '-' :: _ :: _ => true
  | _ => false

/-- The items of joined letters, and the option whose value is still to come. -/
def letters (context : Context) (arg : String) : List Char → List Item × Option Setting
  | [] => ([], none)
  | c :: cs =>
    match context.flags.find? fun flag => flag.short? == some c with
    | none => ([.fault (.unknownOption arg)], none)
    | some (.switch s) =>
      let (items, pending) := letters context arg cs
      (.switch s :: items, pending)
    | some (.setting s) =>
      match cs with
      | [] => ([], some s)
      | '=' :: value => ([.setting s (String.ofList value)], none)
      | value => ([.setting s (String.ofList value)], none)

/-- The item of a long option with the value after `=`, or the option whose value is still to come. -/
def longOption (context : Context) (arg : String) (name : List Char) (value : Option (List Char)) :
    List Item × Option Setting :=
  match context.flags.find? (fun flag => flag.long.toList == name), value with
  | none, _ => ([.fault (.unknownOption arg)], none)
  | some (.switch s), none => ([.switch s], none)
  | some (.switch _), some _ => ([.fault (.unexpectedValue arg)], none)
  | some (.setting s), some value => ([.setting s (String.ofList value)], none)
  | some (.setting s), none => ([], some s)

/-- The text after the first `=`, if there is one. -/
def valuePart (cs : List Char) : Option (List Char) :=
  (cs.dropWhile (· != '=')).tail?

/-- The items of one argument, and the option whose value is still to come. -/
def classify (context : Context) (arg : String) : List Item × Option Setting :=
  match arg.toList with
  | '-' :: '-' :: cs => longOption context arg (cs.takeWhile (· != '=')) (valuePart cs)
  | '-' :: c :: cs => letters context arg (c :: cs)
  | _ => ([.operand arg], none)

/-- The items of some arguments, of which the first one may be the value of `pending`. -/
def scan (context : Context) (pending : Option Setting) : List String → List Item
  | [] =>
    match pending with
    | some s => [.fault (.missingValue (Flag.setting s).long)]
    | none => []
  | arg :: rest =>
    match pending with
    | some s =>
      if isOption arg then [.fault (.missingValue (Flag.setting s).long)]
      else .setting s arg :: scan context none rest
    | none =>
      if arg == "--" then rest.map .operand
      else
        let (items, pending) := classify context arg
        items ++ scan context pending rest

/-- What has been given in a context. -/
structure Draft where
  trace : Bool
  quiet : Bool
  config : Option String
  maxSteps : Option UInt64
  file : Option String
  deriving DecidableEq, Repr

/-- Nothing has been given. -/
def Draft.empty : Draft := ⟨false, false, none, none, none⟩

/-- A path: any text that is not empty. -/
def path (option value : String) : Except UsageFault String :=
  if value == "" then .error (.invalidValue option value) else .ok value

/-- A number of steps: decimal digits, a plus sign before them at most. -/
def stepCount (option value : String) : Except UsageFault UInt64 :=
  match Numeral.word64? (Numeral.dropPlus value.toList) with
  | some n => .ok n
  | none => .error (.invalidValue option value)

/-- The draft with one more item, or a request that is answered at once. -/
def Draft.add (draft : Draft) : Item → Except UsageFault (Draft ⊕ Request)
  | .fault f => .error f
  | .switch .version => .ok (.inr .version)
  | .switch .help => .ok (.inr .help)
  | .switch .trace =>
    if draft.trace then .error (.repeatedOption "--trace") else .ok (.inl { draft with trace := true })
  | .switch .quiet =>
    if draft.quiet then .error (.repeatedOption "--quiet") else .ok (.inl { draft with quiet := true })
  | .setting .config value =>
    match draft.config with
    | some _ => .error (.repeatedOption "--config")
    | none => (path "--config" value).map fun config => .inl { draft with config := some config }
  | .setting .maxSteps value =>
    match draft.maxSteps with
    | some _ => .error (.repeatedOption "--max-steps")
    | none => (stepCount "--max-steps" value).map fun n => .inl { draft with maxSteps := some n }
  | .operand text =>
    match draft.file with
    | some _ => .error (.unexpectedOperand text)
    | none => (path "<FILE>" text).map fun file => .inl { draft with file := some file }

/-- The draft of some items, or the first request among them that is answered at once. -/
def Draft.addAll (draft : Draft) : List Item → Except UsageFault (Draft ⊕ Request)
  | [] => .ok (.inl draft)
  | item :: items => do
    match ← draft.add item with
    | .inl draft => addAll draft items
    | .inr request => return .inr request

/-- The command of a context with what has been given for it. -/
def Draft.command (draft : Draft) (context : Context) : Except UsageFault Command :=
  match draft.file, context with
  | none, _ => .error .missingFile
  | some file, .run => .ok (.run ⟨file, draft.config, draft.maxSteps, draft.quiet⟩)
  | some file, .step => .ok (.step file draft.config)
  | some file, _ => .ok (.list file)

/-- The request for help, with the name of at most one command. -/
def help : List String → Except UsageFault Request
  | [] => .ok .help
  | topic :: rest =>
    if topic == "help" || (Context.ofName? topic).isSome then
      match rest with
      | [] => .ok .help
      | text :: _ => .error (.unknownCommand text)
    else .error (.unknownCommand topic)

/-- The request of a command's name and its own arguments. -/
def command (trace : Bool) (name : String) (args : List String) : Except UsageFault Request :=
  if name == "help" then help args
  else
    match Context.ofName? name with
    | none => .error (.unknownCommand name)
    | some context => do
      match ← Draft.empty.addAll (scan context none args) with
      | .inr request => return request
      | .inl draft => return .invoke ⟨trace || draft.trace, ← draft.command context⟩

end Arguments

open Arguments in
/-- The request of a command line. The first argument that is no option names the command. -/
def Request.ofArguments (args : List String) : Except UsageFault Request := do
  match ← Draft.empty.addAll (scan .top none (args.takeWhile isOption)) with
  | .inr request => return request
  | .inl draft =>
    match draft.file, args.dropWhile isOption with
    | some text, _ => throw (.unexpectedOperand text)
    | none, name :: rest =>
      if (args.takeWhile isOption).contains "--" then throw (.unexpectedOperand name)
      command draft.trace name rest
    | none, [] => throw .missingCommand

end Octet
