import Lox.CommandLine
import Std.Time

/-!
# The program

Reads the arguments, the file and the standard input, and writes what the command line says.
-/

namespace Lox

open CommandLine

/-- More tasks inside one another than any run reaches. -/
def ample : Nat := Nat.pow 2 60

/-- A clock that shows the given seconds and goes on by a microsecond whenever it is read. -/
def clockFrom (seconds : Float) (reads : Nat) : Float :=
  seconds + reads.toFloat / 1000000.0

/-- The clock of a run that begins now, in seconds since 1970. -/
def startClock : IO (Nat → Float) := do
  let now ← Std.Time.Timestamp.now
  return clockFrom (Float.ofInt now.toNanosecondsSinceUnixEpoch.val / 1000000000.0)

/-- The bytes of a file, or why it cannot be opened. -/
def readFile (file : String) : IO (Except String (List UInt8)) := do
  try
    return .ok (← IO.FS.readBinFile file).toList
  catch
    | .noFileOrDirectory _ _ _ => return .error "No such file or directory (os error 2)"
    | other => return .error (toString other)

/-- The next line of the standard input with its line break, or nothing at its end. -/
partial def readLine (stdin : IO.FS.Stream) (done : List UInt8) : IO (List UInt8) := do
  match (← stdin.read 1).toList with
  | [] => return done.reverse
  | byte :: _ => if byte = 10 then return (byte :: done).reverse else readLine stdin (byte :: done)

/-- Writes an outcome and gives its exit code. -/
def publish (outcome : Outcome) : IO UInt32 := do
  IO.print outcome.stdout
  IO.eprint outcome.stderr
  return outcome.code.toUInt32

/-- The prompt, line by line as the lines arrive. -/
partial def converseLive (stdin : IO.FS.Stream) (session : Session) : IO UInt32 := do
  IO.print prompt
  (← IO.getStdout).flush
  match ← readLine stdin [] with
  | [] =>
      IO.println ""
      return 0
  | line =>
      match Text.decode (stripBreak line) with
      | .error _ =>
          IO.eprint StartFault.lineNotText.display
          return 1
      | .ok source =>
          match submitLine ample session source with
          | some (written, diagnostics, session) =>
              IO.print written
              IO.eprint diagnostics
              converseLive stdin session
          | none => return 1

/-- Carries out an invocation and gives the exit code. -/
def carryOut (invocation : Invocation) : IO UInt32 := do
  if invocation.log then IO.FS.writeFile "app.log" ""
  let clock ← startClock
  match invocation.command with
  | .repl => converseLive (← IO.getStdin) (.start clock .unlimited .empty)
  | command =>
      let bytes ←
        match command.file? with
        | some file => readFile file
        | none => pure (.ok [])
      match perform ample clock (fun _ => bytes) [] command with
      | some outcome => publish outcome
      | none => return 1

end Lox

/-- The entry point. -/
def main (arguments : List String) : IO UInt32 := do
  match Lox.CommandLine.Invocation.ofArguments? arguments with
  | some invocation => Lox.carryOut invocation
  | none =>
      IO.eprintln "Usage: lox [--log] tokenize [--json] [FILE] | parse [FILE] | run [FILE] | repl"
      return 2
