import Lox.Grammar.Reading

/-!
# Programs

Reading a whole token list as a program, or single expressions one after the other. Reading always
ends: the fuel handed to the rules grows with the number of tokens, and every sixteen references
in a row pass at least one token.
-/

namespace Lox.Grammar

/-- References to rules allowed for a number of tokens. -/
def fuelFor (tokens : Nat) : Nat := 16 * (tokens + 1)

/-- The statements that were understood, the errors in the order in which they were noted, and the
next unused identity. -/
structure Program where
  statements : List Stmt
  errors : List SyntaxError
  nextId : NodeId

/-- Reads a program from a cursor. -/
def readProgram (setting : Setting) (start : State) : Program :=
  match Rule.run (fuelFor start.rest.length) (.declarations false) setting start with
  | .ok statements state => ⟨statements, state.errors, state.nextId⟩
  | .error _ state => ⟨[], state.errors, state.nextId⟩

/-- Reads a token list as a program, with identities from `nextId` on. -/
def parse (tokens : List Token) (nextId : NodeId) : Program :=
  readProgram (.standard tokens) (.start tokens nextId)

/-- Reads one expression from a cursor, and says where the cursor is afterwards. -/
def readExpression (setting : Setting) (start : State) : Except SyntaxError Expr × State :=
  match Rule.run (fuelFor start.rest.length) .expression setting start with
  | .ok expression state => (.ok expression, state)
  | .error (.fault error) state => (.error error, state)
  | .error .outOfFuel state =>
      (.error ⟨.expectedExpression, setting.ending, state.position⟩, state)

end Lox.Grammar
