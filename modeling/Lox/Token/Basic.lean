import Lox.Numeral.Notation

/-!
# Tokens

A token is a kind, the text it was read from, and a line. Strings and numbers carry their value in
the kind. A kind has a name for listings; `Kind.category` forgets the value, and most of the
grammar asks for no more than the category.
-/

namespace Lox

/-- Punctuation and operators. -/
inductive Symbol where
  | leftParen
  | rightParen
  | leftBrace
  | rightBrace
  | comma
  | dot
  | minus
  | plus
  | semicolon
  | slash
  | star
  | bang
  | bangEqual
  | equal
  | equalEqual
  | greater
  | greaterEqual
  | less
  | lessEqual
  deriving DecidableEq, Repr

/-- Reserved words. -/
inductive Keyword where
  | and_
  | class_
  | else_
  | false_
  | fun_
  | for_
  | if_
  | nil_
  | or_
  | print_
  | return_
  | super_
  | this_
  | true_
  | var_
  | while_
  deriving DecidableEq, Repr

/-- What a token is, without the value of a literal. -/
inductive Category where
  | symbol (symbol : Symbol)
  | keyword (keyword : Keyword)
  | identifier
  | string
  | number
  | eof
  deriving DecidableEq, Repr

/-- What a token is. A string carries its contents without the quotation marks. -/
inductive Kind where
  | symbol (symbol : Symbol)
  | keyword (keyword : Keyword)
  | identifier
  | string (contents : String)
  | number (value : Float)
  | eof

/-- A piece of source text with its meaning and the line on which it ends. -/
structure Token where
  kind : Kind
  lexeme : String
  line : Nat

instance : Inhabited Token := ⟨⟨.eof, "", 1⟩⟩

/-! ## Spelling -/

namespace Symbol

/-- The characters of the symbol. -/
def spelling : Symbol → String
  | leftParen => "("
  | rightParen => ")"
  | leftBrace => "\x7b"
  | rightBrace => "\x7d"
  | comma => ","
  | dot => "."
  | minus => "-"
  | plus => "+"
  | semicolon => ";"
  | slash => "/"
  | star => "*"
  | bang => "!"
  | bangEqual => "!="
  | equal => "="
  | equalEqual => "=="
  | greater => ">"
  | greaterEqual => ">="
  | less => "<"
  | lessEqual => "<="

/-- The name of the symbol in listings. -/
def name : Symbol → String
  | leftParen => "LEFT_PAREN"
  | rightParen => "RIGHT_PAREN"
  | leftBrace => "LEFT_BRACE"
  | rightBrace => "RIGHT_BRACE"
  | comma => "COMMA"
  | dot => "DOT"
  | minus => "MINUS"
  | plus => "PLUS"
  | semicolon => "SEMICOLON"
  | slash => "SLASH"
  | star => "STAR"
  | bang => "BANG"
  | bangEqual => "BANG_EQUAL"
  | equal => "EQUAL"
  | equalEqual => "EQUAL_EQUAL"
  | greater => "GREATER"
  | greaterEqual => "GREATER_EQUAL"
  | less => "LESS"
  | lessEqual => "LESS_EQUAL"

/-- All symbols. -/
def all : List Symbol :=
  [leftParen, rightParen, leftBrace, rightBrace, comma, dot, minus, plus, semicolon, slash, star,
    bang, bangEqual, equal, equalEqual, greater, greaterEqual, less, lessEqual]

end Symbol

namespace Keyword

/-- The word itself. -/
def spelling : Keyword → String
  | and_ => "and"
  | class_ => "class"
  | else_ => "else"
  | false_ => "false"
  | fun_ => "fun"
  | for_ => "for"
  | if_ => "if"
  | nil_ => "nil"
  | or_ => "or"
  | print_ => "print"
  | return_ => "return"
  | super_ => "super"
  | this_ => "this"
  | true_ => "true"
  | var_ => "var"
  | while_ => "while"

/-- The name of the keyword in listings. -/
def name : Keyword → String
  | and_ => "AND"
  | class_ => "CLASS"
  | else_ => "ELSE"
  | false_ => "FALSE"
  | fun_ => "FUN"
  | for_ => "FOR"
  | if_ => "IF"
  | nil_ => "NIL"
  | or_ => "OR"
  | print_ => "PRINT"
  | return_ => "RETURN"
  | super_ => "SUPER"
  | this_ => "THIS"
  | true_ => "TRUE"
  | var_ => "VAR"
  | while_ => "WHILE"

/-- All keywords. -/
def all : List Keyword :=
  [and_, class_, else_, false_, fun_, for_, if_, nil_, or_, print_, return_, super_, this_, true_,
    var_, while_]

/-- The keyword with the given spelling. -/
def ofSpelling? (word : String) : Option Keyword :=
  all.find? (·.spelling == word)

@[simp] theorem ofSpelling?_spelling (keyword : Keyword) :
    ofSpelling? keyword.spelling = some keyword := by
  cases keyword <;> decide

end Keyword

namespace Category

/-- The name of the category in listings. -/
def name : Category → String
  | symbol s => s.name
  | keyword k => k.name
  | identifier => "IDENTIFIER"
  | string => "STRING"
  | number => "NUMBER"
  | eof => "EOF"

end Category

/-! ## Kinds and tokens -/

namespace Kind

/-- The kind without the value of a literal. -/
def category : Kind → Category
  | symbol s => .symbol s
  | keyword k => .keyword k
  | identifier => .identifier
  | string _ => .string
  | number _ => .number
  | eof => .eof

/-- The name of the kind in listings. -/
def name (kind : Kind) : String :=
  kind.category.name

/-- The value of a literal as a listing shows it, and `null` for every other kind. -/
def literal : Kind → String
  | string contents => contents
  | number value => Numeral.literal value
  | _ => "null"

end Kind

namespace Token

/-- The category of the token's kind. -/
def category (token : Token) : Category :=
  token.kind.category

/-- The line of a token listing. -/
def display (token : Token) : String :=
  token.kind.name ++ " " ++ token.lexeme ++ " " ++ token.kind.literal

/-- Where a message about the token points. -/
def location (token : Token) : String :=
  if token.category = .eof then " at end" else " at '" ++ token.lexeme ++ "'"

/-- Whether two tokens agree in category, lexeme and line; the value of a literal is not
compared. -/
def alike (a b : Token) : Bool :=
  a.category == b.category && a.lexeme == b.lexeme && a.line == b.line

end Token

end Lox
