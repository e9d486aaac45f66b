import Lox.Grammar.Program
import Lox.Report
import Lox.Run.Evaluation

/-!
# Sessions

A session is a machine, the next unused identity and a report. Sources are handed to it one after
the other, as tokens: a program that is run if nothing is wrong with it, a program that is run
whatever is wrong with it, single statements, or an expression. Every operation that runs
something takes fuel and gives nothing when the fuel does not suffice; with more fuel the answer
is never another one.
-/

namespace Lox

open Run (Machine Task Flow)

/-- A machine with what it needs to take in sources. -/
structure Session where
  machine : Machine
  nextId : NodeId
  report : Report

/-- Scans a source; the lexical errors go to the report. -/
def Report.scan (report : Report) (source : String) : List Token × Report :=
  (tokens source, report.extend ((lexicalErrors source).map .ofLexical))

namespace Session

/-- A session with a new machine. -/
def start (clock : Nat → Float) (sink : Run.Sink) (report : Report) : Session :=
  ⟨.start clock sink, 0, report⟩

/-! ## Stages -/

/-- Scans a source. -/
def scan (session : Session) (source : String) : List Token × Session :=
  let (tokens, report) := session.report.scan source
  (tokens, { session with report := report })

/-- Reads tokens as a program; the syntax errors go to the report. -/
def parse (session : Session) (tokens : List Token) : List Stmt × Session :=
  let program := Grammar.parse tokens session.nextId
  (program.statements,
    { session with
      nextId := program.nextId
      report := session.report.extend (program.errors.map .ofSyntax) })

/-- Matches the names of a program; the broken rules go to the report. -/
def resolve (session : Session) (program : List Stmt) : Scope.Distances × Session :=
  let (distances, errors) := Scope.resolve program
  (distances, { session with report := session.report.extend (errors.map .ofScope) })

/-- Lets the machine run; what interrupts it goes to the report. The result is missing if the run
was interrupted, and everything is missing if the fuel did not suffice. -/
def perform {α : Type} (session : Session) (run : Run.Action α) : Option (Option α × Session) :=
  match run session.machine with
  | .ok result machine => some (some result, { session with machine := machine })
  | .error (.fault error) machine =>
      some (none, { session with
        machine := machine
        report := session.report.add (.ofRuntime error) })
  | .error (.refused message) machine =>
      some (none, { session with
        machine := machine
        report := session.report.add (.output message) })
  | .error .outOfFuel _ => none

/-- Runs a program with its distances. -/
def interpret (session : Session) (fuel : Nat) (program : List Stmt)
    (distances : Scope.Distances) : Option Session :=
  (session.perform (Run.interpret fuel program distances)).map (·.2)

/-! ## Sources -/

/-- Runs a program if the report shows no static error, neither from before nor from reading it and
matching its names. -/
def submit (session : Session) (fuel : Nat) (tokens : List Token) : Option Session :=
  let (program, session) := session.parse tokens
  if session.report.hadError then
    some session
  else
    let (distances, session) := session.resolve program
    if session.report.hadError then
      some session
    else
      session.interpret fuel program distances

/-- Runs a program whatever errors it has. -/
def force (session : Session) (fuel : Nat) (tokens : List Token) : Option Session :=
  let (program, session) := session.parse tokens
  let (distances, session) := session.resolve program
  session.interpret fuel program distances

/-- Runs a program without matching its names, so that every name is global. -/
def runUnresolved (session : Session) (fuel : Nat) (tokens : List Token) : Option Session :=
  let (program, session) := session.parse tokens
  session.interpret fuel program ∅

/-- Reads one expression and evaluates it without matching its names. Syntax errors that did not
stop the reading are reported last. -/
def evaluate (session : Session) (fuel : Nat) (tokens : List Token) :
    Option (Option Value × Session) :=
  let (outcome, cursor) :=
    Grammar.readExpression (.standard tokens) (.start tokens session.nextId)
  let session := { session with nextId := cursor.nextId }
  let evaluated : Option (Option Value × Session) :=
    match outcome with
    | .ok expression => session.perform (Task.run fuel (.evaluate expression))
    | .error error =>
        some (none, { session with report := session.report.add (.ofSyntax error) })
  evaluated.map fun (value, session) =>
    (value, { session with report := session.report.extend (cursor.errors.map .ofSyntax) })

/-- Executes statements one after the other, whether or not those before succeeded. -/
def executeEach (session : Session) (fuel : Nat) :
    List Stmt → Option (List (Option Flow) × Session)
  | [] => some ([], session)
  | statement :: rest => do
      let (flow, session) ← session.perform (Task.run fuel (.execute statement))
      let (flows, session) ← session.executeEach fuel rest
      return (flow :: flows, session)

/-- Reads a program, matches its names, and executes each of its statements whatever errors there
are. The machine learns the distances, and flushes its output, before the first. -/
def execute (session : Session) (fuel : Nat) (tokens : List Token) :
    Option (List (Option Flow) × Session) := do
  let (program, session) := session.parse tokens
  let (distances, session) := session.resolve program
  let session ← session.interpret fuel [] distances
  session.executeEach fuel program

/-! ## Between sources -/

/-- Forgets the diagnostics. -/
def reset (session : Session) : Session :=
  { session with report := .empty }

/-- Begins the output afresh. -/
def restartOutput (session : Session) : Session :=
  { session with machine := { session.machine with output := .start } }

end Session

/-- Runs a source on a new machine. The report is added to; it tells what went wrong, and the
machine holds what was written. -/
def run (fuel : Nat) (clock : Nat → Float) (sink : Run.Sink) (source : String)
    (report : Report) : Option Session :=
  let (tokens, session) := (Session.start clock sink report).scan source
  session.submit fuel tokens

end Lox
