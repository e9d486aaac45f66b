import Lox.Grammar.Fault
import Lox.RuntimeError
import Lox.Scope.Resolver
import Lox.Token.Stream

/-!
# Reports

Whatever goes wrong, from a stray character to a refused write, becomes a diagnostic. A report
collects diagnostics in order and remembers whether any of them was static, which keeps a program
from running, or arose while running. Draining hands over the diagnostics but keeps these marks.
-/

namespace Lox

/-- Something that went wrong, by the stage at which it did. -/
inductive Diagnostic where
  | lexical (message : String) (line : Nat)
  | syntactic (message : String) (token : Token)
  | scoping (message : String) (token : Token)
  | runtime (message : String) (token : Token)
  | output (message : String)

namespace Diagnostic

/-- The diagnostic of a lexical error. -/
def ofLexical (error : LexicalError) : Diagnostic :=
  lexical error.fault.message error.line

/-- The diagnostic of a syntax error. -/
def ofSyntax (error : SyntaxError) : Diagnostic :=
  syntactic error.fault.message error.token

/-- The diagnostic of a broken static rule. -/
def ofScope (error : Scope.ScopeError) : Diagnostic :=
  scoping error.fault.message error.token

/-- The diagnostic of a run-time error. -/
def ofRuntime (error : RuntimeError) : Diagnostic :=
  runtime error.fault.message error.token

/-- Whether the diagnostic keeps a program from running. -/
def isStatic : Diagnostic → Bool
  | lexical _ _ | syntactic _ _ | scoping _ _ => true
  | runtime _ _ | output _ => false

/-- The line that the diagnostic points at. -/
def line? : Diagnostic → Option Nat
  | lexical _ line => some line
  | syntactic _ token | scoping _ token | runtime _ token => some token.line
  | output _ => none

/-- The place in the line, where the display shows one. -/
def location? : Diagnostic → Option String
  | syntactic _ token | scoping _ token => some token.location
  | lexical _ _ | runtime _ _ | output _ => none

/-- The bare message. -/
def message : Diagnostic → String
  | lexical message _ | syntactic message _ | scoping message _ | runtime message _
  | output message => message

/-- The full text: line and place before the message of a static diagnostic, the line below that
of a run-time error. -/
def display (diagnostic : Diagnostic) : String :=
  match diagnostic with
  | lexical message line => "[line " ++ toString line ++ "] Error: " ++ message
  | syntactic message token | scoping message token =>
      "[line " ++ toString token.line ++ "] Error" ++ token.location ++ ": " ++ message
  | runtime message token => message ++ "\n[line " ++ toString token.line ++ "]"
  | output message => message

end Diagnostic

/-- Diagnostics in the order of their arrival, and whether a static one or another one has arrived
since the last reset. -/
structure Report where
  held : List Diagnostic
  hadError : Bool
  hadRuntimeError : Bool

namespace Report

/-- The report to which nothing has been added. -/
def empty : Report := ⟨[], false, false⟩

/-- Adds a diagnostic. -/
def add (report : Report) (diagnostic : Diagnostic) : Report where
  held := report.held ++ [diagnostic]
  hadError := report.hadError || diagnostic.isStatic
  hadRuntimeError := report.hadRuntimeError || !diagnostic.isStatic

/-- Adds diagnostics in order. -/
def extend (report : Report) (diagnostics : List Diagnostic) : Report :=
  diagnostics.foldl add report

/-- Hands over the diagnostics held; the marks stay. -/
def drain (report : Report) : List Diagnostic × Report :=
  (report.held, { report with held := [] })

end Report

end Lox
