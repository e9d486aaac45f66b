import Lox.Token.Basic

/-!
# Syntax faults

What the grammar asked for and did not find, and the limits that a program can exceed. A fault
together with the token that it points at and the position of that token is a `SyntaxError`.
-/

namespace Lox

/-- What a name in a declaration or after a dot is the name of. -/
inductive NameRole where
  | class_
  | superclass
  | function
  | method
  | parameter
  | variable_
  | property
  | superclassMethod
  deriving DecidableEq, Repr

/-- The name in words. -/
def NameRole.describe : NameRole → String
  | class_ => "class name"
  | superclass => "superclass name"
  | function => "function name"
  | method => "method name"
  | parameter => "parameter name"
  | variable_ => "variable name"
  | property => "property name after '.'"
  | superclassMethod => "superclass method name"

/-- Whether a function is declared on its own or in a class. -/
inductive FunctionForm where
  | function
  | method
  deriving DecidableEq, Repr

/-- The form in words. -/
def FunctionForm.describe : FunctionForm → String
  | function => "function"
  | method => "method"

/-- The role of the function's name. -/
def FunctionForm.nameRole : FunctionForm → NameRole
  | function => .function
  | method => .method

/-- Where in a construct a symbol is required. -/
inductive SymbolPlace where
  | beforeClassBody
  | afterClassBody
  | afterFunctionName (form : FunctionForm)
  | afterParameters
  | beforeFunctionBody (form : FunctionForm)
  | afterVariableDeclaration
  | afterKeyword (keyword : Keyword)
  | afterLoopCondition
  | afterForClauses
  | afterIfCondition
  | afterWhileCondition
  | afterPrintedValue
  | afterReturnValue
  | afterExpressionStatement
  | afterBlock
  | afterArguments
  | afterGrouping
  deriving DecidableEq, Repr

/-- The place in words. -/
def SymbolPlace.describe : SymbolPlace → String
  | beforeClassBody => "before class body"
  | afterClassBody => "after class body"
  | afterFunctionName form => "after " ++ form.describe ++ " name"
  | afterParameters => "after parameters"
  | beforeFunctionBody form => "before " ++ form.describe ++ " body"
  | afterVariableDeclaration => "after variable declaration"
  | afterKeyword keyword => "after '" ++ keyword.spelling ++ "'"
  | afterLoopCondition => "after loop condition"
  | afterForClauses => "after for clauses"
  | afterIfCondition => "after if condition"
  | afterWhileCondition => "after condition"
  | afterPrintedValue => "after value"
  | afterReturnValue => "after return value"
  | afterExpressionStatement => "after expression"
  | afterBlock => "after block"
  | afterArguments => "after arguments"
  | afterGrouping => "after expression"

/-- Why a token does not fit. -/
inductive SyntaxFault where
  | expectedName (role : NameRole)
  | expectedSymbol (symbol : Symbol) (place : SymbolPlace)
  | expectedExpression
  | invalidAssignmentTarget
  | tooManyParameters (limit : Nat)
  | tooManyArguments (limit : Nat)
  deriving DecidableEq, Repr

/-- The fault in words. -/
def SyntaxFault.message : SyntaxFault → String
  | expectedName role => "Expect " ++ role.describe ++ "."
  | expectedSymbol symbol place =>
      "Expect '" ++ symbol.spelling ++ "' " ++ place.describe ++ "."
  | expectedExpression => "Expect expression."
  | invalidAssignmentTarget => "Invalid assignment target."
  | tooManyParameters limit => "Cannot have more than " ++ toString limit ++ " parameters."
  | tooManyArguments limit => "Cannot have more than " ++ toString limit ++ " arguments."

/-- A fault at a token, with the number of tokens before it. -/
structure SyntaxError where
  fault : SyntaxFault
  token : Token
  position : Nat

end Lox
