import Lox.Session
import Lox.Syntax.Printer
import Lox.Text.Quoted
import Lox.Token.Json

/-!
# The command line

What the program does for given arguments, as a function from the contents of the file or of the
standard input to the texts written and the exit code. Diagnostics go to the error stream. The
exit code is 65 after a static error, 70 after an error while running, and 1 when the program
cannot start.
-/

namespace Lox.CommandLine

open Run (Sink)

/-- What the program is asked to do. -/
inductive Command where
  | tokenize (file : Option String) (json : Bool)
  | parse (file : Option String)
  | run (file : Option String)
  | repl
  deriving DecidableEq, Repr

/-- A command, and whether a log file is wanted. -/
structure Invocation where
  command : Command
  log : Bool
  deriving DecidableEq, Repr

/-- The file that the command reads, if it names one. -/
def Command.file? : Command → Option String
  | tokenize file _ | parse file | run file => file
  | repl => none

/-- Whether an argument is an option. -/
def isOption (argument : String) : Bool :=
  argument.startsWith "-"

/-- The invocation that the arguments ask for. Options may stand anywhere. -/
def Invocation.ofArguments? (arguments : List String) : Option Invocation :=
  let options := arguments.filter isOption
  let words := arguments.filter fun argument => !isOption argument
  let json := options.contains "--json"
  let known := options.all fun option => option == "--json" || option == "--log"
  let command : Option Command :=
    match words with
    | ["tokenize"] => some (.tokenize none json)
    | ["tokenize", file] => some (.tokenize (some file) json)
    | ["parse"] => if json then none else some (.parse none)
    | ["parse", file] => if json then none else some (.parse (some file))
    | ["run"] => if json then none else some (.run none)
    | ["run", file] => if json then none else some (.run (some file))
    | ["repl"] => if json then none else some .repl
    | _ => none
  if known then command.map (⟨·, options.contains "--log"⟩) else none

/-- What a command leaves behind: both streams and the exit code. -/
structure Outcome where
  stdout : String
  stderr : String
  code : Nat
  deriving DecidableEq, Repr

/-! ## Failing to start -/

/-- Why the input of a command cannot be read. -/
inductive StartFault where
  | unopened (file reason : String)
  | notText (file : String) (fault : Text.Utf8Fault)
  | lineNotText
  deriving DecidableEq, Repr

/-- What was attempted. -/
def StartFault.context : StartFault → String
  | unopened file _ => "Failed to open file " ++ Text.quoted file
  | notText file _ => "File " ++ Text.quoted file ++ " is not valid UTF-8"
  | lineNotText => "Failed to read line"

/-- Why it failed. -/
def StartFault.cause : StartFault → String
  | unopened _ reason => reason
  | notText _ fault => fault.message
  | lineNotText => "stream did not contain valid UTF-8"

/-- The fault as the error stream shows it. -/
def StartFault.display (fault : StartFault) : String :=
  "Error: " ++ fault.context ++ "\n\nCaused by:\n    " ++ fault.cause ++ "\n"

/-! ## Commands on a source -/

/-- Each text on a line of its own. -/
def lines (texts : List String) : String :=
  String.join (texts.map (· ++ "\n"))

/-- The diagnostics of a report as the error stream shows them. -/
def displayed (report : Report) : String :=
  lines (report.held.map Diagnostic.display)

/-- Lists the tokens of a source, whether or not there are lexical errors. -/
def tokenize (source : String) (json : Bool) : Outcome where
  stdout :=
    if json then lines [Token.listing (tokens source)]
    else lines ((tokens source).map Token.display)
  stderr := displayed (Report.empty.scan source).2
  code := if (Report.empty.scan source).2.hadError then 65 else 0

/-- Prints the tree of each statement of a source, if there are no errors. -/
def parse (source : String) : Outcome :=
  let (tokens, report) := Report.empty.scan source
  let program := Grammar.parse tokens 0
  let report := report.extend (program.errors.map .ofSyntax)
  if report.hadError then ⟨"", displayed report, 65⟩
  else ⟨lines (program.statements.map Stmt.render), "", 0⟩

/-- Runs a source. -/
def run (fuel : Nat) (clock : Nat → Float) (source : String) : Option Outcome :=
  (Lox.run fuel clock .unlimited source .empty).map fun session =>
    let report := session.report
    ⟨session.machine.output.text, displayed report,
      if report.hadError then 65 else if report.hadRuntimeError then 70 else 0⟩

/-! ## The prompt -/

/-- What is shown before each line is read. -/
def prompt : String := "> "

/-- Takes in a line of source. Gives what it wrote, the diagnostics and the session for the next
line. -/
def submitLine (fuel : Nat) (session : Session) (line : String) :
    Option (String × String × Session) := do
  let (tokens, scanned) := session.scan line
  let session ← scanned.submit fuel tokens
  return (session.machine.output.text, displayed session.report, session.reset.restartOutput)

/-- The bytes of a line without its line break, which may be preceded by a carriage return. -/
def stripBreak (line : List UInt8) : List UInt8 :=
  match line.reverse with
  | 10 :: 13 :: rest => rest.reverse
  | 10 :: rest => rest.reverse
  | _ => line

/-- The lines of a text with their line breaks. The last line may lack one. -/
def splitLines : List UInt8 → List (List UInt8)
  | [] => []
  | byte :: rest =>
      if byte = 10 then [byte] :: splitLines rest
      else
        match splitLines rest with
        | [] => [[byte]]
        | line :: others => (byte :: line) :: others

/-- Prompts for lines until the input ends. A line that is not text ends the session. -/
def converse (fuel : Nat) (session : Session) : List (List UInt8) → Option Outcome
  | [] => some ⟨prompt ++ "\n", "", 0⟩
  | line :: rest =>
      match Text.decode (stripBreak line) with
      | .error _ => some ⟨prompt, StartFault.lineNotText.display, 1⟩
      | .ok source => do
          let (written, diagnostics, session) ← submitLine fuel session source
          let outcome ← converse fuel session rest
          return ⟨prompt ++ written ++ outcome.stdout, diagnostics ++ outcome.stderr,
            outcome.code⟩

/-! ## All commands -/

/-- What is said when a command that needs a file is given none. -/
def noInput : Outcome :=
  ⟨"No input filepath was provided. Exiting...\n", "", 0⟩

/-- The outcome of a fault before anything is done. -/
def StartFault.outcome (fault : StartFault) : Outcome :=
  ⟨"", fault.display, 1⟩

/-- The text of a file, given its bytes or why it cannot be opened. -/
def fileText (file : String) : Except String (List UInt8) → Except StartFault String
  | .error reason => .error (.unopened file reason)
  | .ok bytes => (Text.decode bytes).mapError (.notText file)

/-- Carries out a command on a file's text. -/
def onFile (file : Option String) (read : String → Except String (List UInt8))
    (command : String → Option Outcome) : Option Outcome :=
  match file with
  | none => some noInput
  | some file =>
      match fileText file (read file) with
      | .error fault => some fault.outcome
      | .ok source => command source

/-- Carries out a command. `read` gives the bytes of a file, or why it cannot be opened. -/
def perform (fuel : Nat) (clock : Nat → Float) (read : String → Except String (List UInt8))
    (stdin : List UInt8) : Command → Option Outcome
  | .tokenize file json => onFile file read fun source => some (tokenize source json)
  | .parse file => onFile file read fun source => some (parse source)
  | .run file => onFile file read (run fuel clock)
  | .repl => converse fuel (.start clock .unlimited .empty) (splitLines stdin)

end Lox.CommandLine
