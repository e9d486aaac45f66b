import Lox.Text.Quoted
import Lox.Token.Basic

/-!
# Token listings in JSON

An array of objects, one member a line and two blanks for each level. The kind of a token is a
string, or for a literal an object with the value.
-/

namespace Lox.Token

/-- Blanks for a number of levels. -/
def indent (levels : Nat) : String :=
  String.ofList (List.replicate (2 * levels) ' ')

/-- Lines of an object or an array between its brackets, separated by commas. -/
def bracketed (levels : Nat) (opening closing : String) (members : List String) : String :=
  opening ++ "\n" ++ ",\n".intercalate (members.map (indent (levels + 1) ++ ·)) ++ "\n" ++
    indent levels ++ closing

/-- A JSON object that begins at a level. -/
def object (levels : Nat) (members : List (String × String)) : String :=
  bracketed levels "\x7b" "\x7d"
    (members.map fun (key, value) => Text.quoted key ++ ": " ++ value)

/-- The kind of a token inside the token's object. -/
def kindJson : Kind → String
  | .string contents => object 2 [("STRING", Text.quoted contents)]
  | .number value => object 2 [("NUMBER", Numeral.json value)]
  | kind => Text.quoted kind.name

/-- One token inside the array. -/
def json (token : Token) : String :=
  object 1
    [("token_type", kindJson token.kind), ("lexeme", Text.quoted token.lexeme),
      ("line", toString token.line)]

/-- The whole listing. -/
def listing (tokens : List Token) : String :=
  if tokens.isEmpty then "[]" else bracketed 0 "[" "]" (tokens.map json)

end Lox.Token
