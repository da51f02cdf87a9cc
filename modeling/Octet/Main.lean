import Octet.Session

/-!
# The command line program

The outer layer: it reads the files that a command names, the environment and standard input, lets a
session do the work, and prints what the session has printed.
-/

namespace Octet.Main

/-- Reads a file. -/
def readFile (path : String) : IO (Except FileFault ByteArray) := do
  try
    return .ok (← IO.FS.readBinFile path)
  catch
    | .inappropriateType _ 21 _ => return .error .isDirectory
    | .inappropriateType .. => return .error .notDirectory
    | _ => return .error .missing

/-- A disk with the files of a command. -/
def readDisk (paths : List String) : IO Disk := do
  let files ← paths.mapM fun path => do return (path, ← readFile path)
  return fun path => (files.lookup path).getD (.error .missing)

/-- The next line of standard input with its end, if there is one. -/
partial def readLine (stdin : IO.FS.Stream) (line : Array UInt8) : IO (Option (Array UInt8)) := do
  let chunk ← stdin.read 1
  match chunk.toList.head? with
  | none => return if line.isEmpty then none else some line
  | some 10 => return some (line.push 10)
  | some byte => readLine stdin (line.push byte)

/-- Prints what a session has printed since the last time. -/
def flush (filter : LogFilter) (c : Console) : IO Console := do
  let stdout ← IO.getStdout
  stdout.putStr c.out
  stdout.flush
  (← IO.getStderr).putStr (filter.render c.world.log.toList ++ c.err)
  return { c with out := "", err := "", world := { c.world with log := #[] } }

/-- Prints the end of a session and gives its exit code. -/
def finish (filter : LogFilter) (result : EStateM.Result Error Console Unit) : IO UInt32 := do
  let report := Session.report filter result
  (← IO.getStdout).putStr report.out
  (← IO.getStderr).putStr report.err
  return UInt32.ofNat report.exit

/-- A time in seconds, with six places. -/
def seconds (nanos : Nat) : String :=
  let micros := nanos / 1000
  let places := Numeral.decimal (micros % 1000000)
  Numeral.decimal (micros / 1000000) ++ "." ++
    String.ofList (List.replicate (6 - places.length) '0') ++ places

/-- Steps through a program while there is input. -/
partial def interact (filter : LogFilter) (m : Machine) (c : Console) : IO UInt32 := do
  match (Session.ask m).run c with
  | .error e c => finish filter (.error e c)
  | .ok more c =>
    let c ← flush filter c
    if !more then return 0
    match ← readLine (← IO.getStdin) #[] with
    | none => return 0
    | some line =>
      match (Session.respond m ((Text.byteLines line.toList).headD [])).run c with
      | .error e c => finish filter (.error e c)
      | .ok none c => finish filter (.ok () c)
      | .ok (some m) c => interact filter m (← flush filter c)

/-- Carries out a command. -/
def perform (filter : LogFilter) (disk : Disk) (i : Invocation) : IO UInt32 := do
  match i.command with
  | .list file => finish filter ((Session.list disk file).run Session.start)
  | .run options =>
    let started ← IO.monoNanosNow
    match (Session.execute disk i.trace options).run Session.start with
    | .error e c => finish filter (.error e c)
    | .ok (result, m) c =>
      let c ← flush filter c
      let elapsed := (← IO.monoNanosNow) - started
      finish filter ((Session.conclude result m options.quiet (seconds elapsed)).run c)
  | .step file config =>
    match (Session.begin disk i.trace file config).run Session.start with
    | .error e c => finish filter (.error e c)
    | .ok m c => interact filter m (← flush filter c)

end Octet.Main

/-- Runs the command line program. -/
def main (args : List String) : IO UInt32 := do
  match Octet.Request.ofArguments args with
  | .error fault =>
    (← IO.getStderr).putStr ("error: " ++ fault.message ++ "\n\n" ++ Octet.Session.helpText)
    return 2
  | .ok .version =>
    (← IO.getStdout).putStr Octet.Session.versionText
    return 0
  | .ok .help =>
    (← IO.getStdout).putStr Octet.Session.helpText
    return 0
  | .ok (.invoke i) =>
    let filter := Octet.LogFilter.select i.trace (← IO.getEnv "RUST_LOG")
    Octet.Main.perform filter (← Octet.Main.readDisk i.command.paths) i
