import Lox.Grammar.Fault
import Lox.Syntax.Basic

/-!
# The parser's cursor

A parser reads the tokens before the end marker from left to right. It keeps the errors that it
noted without giving up, hands out identities for expressions, and may stop at a fault. The
operations here are the only ones that touch the cursor.
-/

namespace Lox.Grammar

/-- What stays fixed during a parse: the end marker, and the number of parameters or arguments
from which on each further one is noted as an error. -/
structure Setting where
  ending : Token
  limit : Option Nat

/-- The limit of the language. -/
def entryLimit : Nat := 8

/-- The tokens still to be read, the number of tokens read, the errors noted so far, and the next
unused identity. -/
structure State where
  rest : List Token
  position : Nat
  errors : List SyntaxError
  nextId : NodeId

/-- Why a rule of the grammar gives no tree. -/
inductive Halt where
  | fault (error : SyntaxError)
  | outOfFuel

/-- A parser for trees of a type. -/
abbrev Parser := ReaderT Setting (EStateM Halt State)

/-- The end marker of a token list: its first, or one on line 1 if it has none. -/
def endMarker (tokens : List Token) : Token :=
  (tokens.find? (·.category = .eof)).getD default

/-- The setting for a token list with the limit of the language. -/
def Setting.standard (tokens : List Token) : Setting :=
  ⟨endMarker tokens, some entryLimit⟩

/-- The cursor before the first token. Nothing from the first end marker on is ever read. -/
def State.start (tokens : List Token) (nextId : NodeId) : State :=
  ⟨tokens.takeWhile (·.category ≠ .eof), 0, [], nextId⟩

/-! ## Looking and moving -/

/-- The next token, which at the end is the end marker. -/
def peek : Parser Token := do
  return (← get).rest.head?.getD (← read).ending

/-- Whether the end is reached. -/
def atEnd : Parser Bool := do
  return (← get).rest.isEmpty

/-- Whether the next token is of a category; the end marker is of none. -/
def sees (category : Category) : Parser Bool := do
  return (← get).rest.head?.any (·.category = category)

/-- Moves past the next token. -/
def skip : Parser Unit :=
  modify fun state =>
    match state.rest with
    | [] => state
    | _ :: rest => { state with rest := rest, position := state.position + 1 }

/-- Takes the next token if it is of a category. -/
def accept? (category : Category) : Parser (Option Token) := do
  if ← sees category then
    let token ← peek
    skip
    return some token
  else
    return none

/-- Takes the next token if it is of a category, and says whether it was. -/
def accepts (category : Category) : Parser Bool := do
  return (← accept? category).isSome

/-- An unused identity. -/
def freshId : Parser NodeId :=
  modifyGet fun state => (state.nextId, { state with nextId := state.nextId + 1 })

/-! ## Errors -/

/-- A fault at the next token. -/
def faultHere (fault : SyntaxFault) : Parser SyntaxError := do
  return ⟨fault, ← peek, (← get).position⟩

/-- Gives up at the next token. -/
def giveUp {α : Type} (fault : SyntaxFault) : Parser α := do
  throw (.fault (← faultHere fault))

/-- Notes an error and goes on. -/
def note (error : SyntaxError) : Parser Unit :=
  modify fun state => { state with errors := state.errors ++ [error] }

/-- Takes the next token, which has to be of a category. -/
def expect (category : Category) (fault : SyntaxFault) : Parser Token := do
  match ← accept? category with
  | some token => return token
  | none => giveUp fault

/-- Takes a symbol that is required at a place. -/
def expectSymbol (symbol : Symbol) (place : SymbolPlace) : Parser Token :=
  expect (.symbol symbol) (.expectedSymbol symbol place)

/-- Takes a name. -/
def expectName (role : NameRole) : Parser Token :=
  expect .identifier (.expectedName role)

/-- Notes a fault if as many entries as the limit allows have been read already. -/
def checkLimit (count : Nat) (fault : Nat → SyntaxFault) : Parser Unit := do
  match (← read).limit with
  | some limit => if limit ≤ count then note (← faultHere (fault limit))
  | none => return

/-! ## Recovery -/

/-- Whether a token of this category begins a statement of its own. -/
def beginsStatement : Category → Bool
  | .keyword .class_ | .keyword .fun_ | .keyword .var_ | .keyword .for_ | .keyword .if_
  | .keyword .while_ | .keyword .print_ | .keyword .return_ => true
  | _ => false

/-- How many tokens to pass over, after the token `previous`, until a semicolon has been passed
or a statement begins. -/
def toBoundary (previous : Token) : List Token → Nat
  | [] => 0
  | token :: rest =>
      if previous.category = .symbol .semicolon ∨ beginsStatement token.category then 0
      else toBoundary token rest + 1

/-- Passes over the next token, and on to the next likely boundary between statements. -/
def synchronize : Parser Unit :=
  modify fun state =>
    match state.rest with
    | [] => state
    | token :: rest =>
        let count := toBoundary token rest
        { state with rest := rest.drop count, position := state.position + 1 + count }

end Lox.Grammar
