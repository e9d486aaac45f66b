import Lox.Numeral.Reading
import Lox.Token.Basic

/-!
# Lexemes

The source text is cut into pieces: lexemes, blanks, comments and faults. `Piece.first` says which
piece begins at a character, and `pieces` cuts a whole text. Nothing is lost: the pieces' texts
joined are the source.
-/

namespace Lox

/-- Why a piece of text is no lexeme. -/
inductive LexicalFault where
  | unexpectedCharacter (c : Char)
  | unterminatedString
  | invalidNumber (text : String)
  deriving DecidableEq, Repr

/-- The fault in words. -/
def LexicalFault.message : LexicalFault → String
  | unexpectedCharacter c => "Unexpected character: " ++ String.singleton c
  | unterminatedString => "Unterminated string."
  | invalidNumber text => "Invalid number: " ++ text

/-- What a piece of source text is. -/
inductive PieceClass where
  | blank
  | comment
  | lexeme (kind : Kind)
  | fault (fault : LexicalFault)

/-- A piece of source text. -/
structure Piece where
  text : List Char
  class_ : PieceClass

/-- A letter or an underscore. -/
def isWordStart (c : Char) : Bool :=
  c.isAlpha || c == '_'

/-- A letter, a digit or an underscore. -/
def isWordChar (c : Char) : Bool :=
  c.isAlphanum || c == '_'

namespace Piece

/-- A word, which is a keyword or an identifier. -/
def word (c : Char) (rest : List Char) : Piece :=
  let text := c :: rest.takeWhile isWordChar
  match Keyword.ofSpelling? (String.ofList text) with
  | some keyword => ⟨text, .lexeme (.keyword keyword)⟩
  | none => ⟨text, .lexeme .identifier⟩

/-- The point and the digits after it, if a digit does follow the point. -/
def fraction : List Char → List Char
  | '.' :: d :: rest => if d.isDigit then '.' :: d :: rest.takeWhile Char.isDigit else []
  | _ => []

/-- A number: digits with an optional fraction. -/
def number (c : Char) (rest : List Char) : Piece :=
  let text := c :: rest.takeWhile Char.isDigit ++ fraction (rest.dropWhile Char.isDigit)
  match Numeral.ofDecimal? text with
  | some value => ⟨text, .lexeme (.number value)⟩
  | none => ⟨text, .fault (.invalidNumber (String.ofList text))⟩

/-- A string, which runs to the next quotation mark and may span lines. -/
def string (rest : List Char) : Piece :=
  let contents := rest.takeWhile (· ≠ '"')
  match rest.dropWhile (· ≠ '"') with
  | [] => ⟨'"' :: contents, .fault .unterminatedString⟩
  | _ :: _ => ⟨'"' :: contents ++ ['"'], .lexeme (.string (String.ofList contents))⟩

/-- A symbol of one character. -/
def single (c : Char) (symbol : Symbol) : Piece :=
  ⟨[c], .lexeme (.symbol symbol)⟩

/-- A symbol that an equals sign right after it extends. -/
def withEqual (c : Char) (extended plain : Symbol) : List Char → Piece
  | '=' :: _ => ⟨[c, '='], .lexeme (.symbol extended)⟩
  | _ => single c plain

/-- A slash, or a comment up to the end of its line. -/
def slash : List Char → Piece
  | '/' :: rest => ⟨'/' :: '/' :: rest.takeWhile (· ≠ '\n'), .comment⟩
  | _ => single '/' .slash

/-- The piece that begins with `c` when `rest` follows. -/
def first (c : Char) (rest : List Char) : Piece :=
  match c with
  | ' ' | '\r' | '\t' | '\n' => ⟨[c], .blank⟩
  | '(' => single c .leftParen
  | ')' => single c .rightParen
  | '{' => single c .leftBrace
  | '}' => single c .rightBrace
  | ',' => single c .comma
  | '.' => single c .dot
  | '-' => single c .minus
  | '+' => single c .plus
  | ';' => single c .semicolon
  | '*' => single c .star
  | '!' => withEqual c .bangEqual .bang rest
  | '=' => withEqual c .equalEqual .equal rest
  | '<' => withEqual c .lessEqual .less rest
  | '>' => withEqual c .greaterEqual .greater rest
  | '/' => slash rest
  | '"' => string rest
  | _ =>
      if c.isDigit then number c rest
      else if isWordStart c then word c rest
      else ⟨[c], .fault (.unexpectedCharacter c)⟩

end Piece

/-- Cuts a text into pieces, after its first `skip` characters, which belong to a piece before. -/
def piecesFrom : (skip : Nat) → List Char → List Piece
  | _, [] => []
  | skip + 1, _ :: rest => piecesFrom skip rest
  | 0, c :: rest =>
      let piece := Piece.first c rest
      piece :: piecesFrom (piece.text.length - 1) rest

/-- The pieces of a text, in order. -/
def pieces (text : List Char) : List Piece :=
  piecesFrom 0 text

end Lox
