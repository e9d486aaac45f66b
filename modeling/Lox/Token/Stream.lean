import Lox.Token.Lexeme

/-!
# Token streams

Scanning a text gives one item for each lexeme and each fault, and an end marker. The line of an
item is one more than the number of line breaks up to the end of its piece of text.
-/

namespace Lox

/-- A fault on a line of the source. -/
structure LexicalError where
  fault : LexicalFault
  line : Nat
  deriving DecidableEq, Repr

/-- An item of the token stream. -/
inductive Item where
  | token (token : Token)
  | error (error : LexicalError)

/-- The number of line breaks in a text. -/
def lineBreaks (text : List Char) : Nat :=
  text.count '\n'

/-- The items of pieces that begin on `line`. -/
def itemsFrom : (line : Nat) → List Piece → List Item
  | line, [] => [.token ⟨.eof, "", line⟩]
  | line, piece :: rest =>
      let last := line + lineBreaks piece.text
      match piece.class_ with
      | .lexeme kind => .token ⟨kind, String.ofList piece.text, last⟩ :: itemsFrom last rest
      | .fault fault => .error ⟨fault, last⟩ :: itemsFrom last rest
      | .blank | .comment => itemsFrom last rest

/-- The token stream of a source text. -/
def scan (source : String) : List Item :=
  itemsFrom 1 (pieces source.toList)

/-- The token of an item, if it is one. -/
def Item.token? : Item → Option Token
  | token t => some t
  | error _ => none

/-- The error of an item, if it is one. -/
def Item.error? : Item → Option LexicalError
  | token _ => none
  | error e => some e

/-- The tokens of a source text, the end marker included. -/
def tokens (source : String) : List Token :=
  (scan source).filterMap Item.token?

/-- The lexical errors of a source text. -/
def lexicalErrors (source : String) : List LexicalError :=
  (scan source).filterMap Item.error?

end Lox
