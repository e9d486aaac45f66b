import Lox.Grammar.Rule

/-!
# Reading statements

Declarations and statements begin with a keyword or a brace, or else with an expression. A fault
inside a declaration is noted there, and reading goes on after it.
-/

namespace Lox.Grammar

/-! ## Declarations -/

/-- The body of a block, after its opening brace. -/
@[inline] def block (sub : Readers) : Parser (List Stmt) := do
  let body : List Stmt ← sub (.declarations true)
  let _ ← expectSymbol .rightBrace .afterBlock
  return body

/-- The parameters of a function, unless the closing parenthesis follows at once. -/
@[inline] def parameterList (sub : Readers) : Parser (List Token) := do
  if ← sees (.symbol .rightParen) then
    return []
  else
    sub (.parameters 0)

/-- A function or method from its name on. -/
@[inline] def function (sub : Readers) (form : FunctionForm) : Parser FunctionDecl := do
  let name ← expectName form.nameRole
  let _ ← expectSymbol .leftParen (.afterFunctionName form)
  let parameters ← parameterList sub
  let _ ← expectSymbol .rightParen .afterParameters
  let _ ← expectSymbol .leftBrace (.beforeFunctionBody form)
  let body ← block sub
  return ⟨name, parameters, body⟩

/-- The parameters of a function, the first of which has index `count`. -/
@[inline] def parameters (sub : Readers) (count : Nat) : Parser (List Token) := do
  checkLimit count .tooManyParameters
  let name ← expectName .parameter
  if ← accepts (.symbol .comma) then
    let rest : List Token ← sub (.parameters (count + 1))
    return name :: rest
  else
    return [name]

/-- The methods of a class up to the closing brace. -/
@[inline] def methods (sub : Readers) : Parser (List FunctionDecl) := do
  if (← sees (.symbol .rightBrace)) || (← atEnd) then
    return []
  else
    let method ← function sub .method
    let rest : List FunctionDecl ← sub .methods
    return method :: rest

/-- The superclass of a class, after its name. -/
@[inline] def superclassClause : Parser (Option Expr) := do
  if ← accepts (.symbol .less) then
    let superclass ← expectName .superclass
    return some (.var (← freshId) superclass)
  else
    return none

/-- A class from its name on. -/
@[inline] def classDeclaration (sub : Readers) : Parser Stmt := do
  let name ← expectName .class_
  let superclass ← superclassClause
  let _ ← expectSymbol .leftBrace .beforeClassBody
  let methods : List FunctionDecl ← sub .methods
  let _ ← expectSymbol .rightBrace .afterClassBody
  return .class_ name superclass methods

/-- The initial value of a variable, after its name. -/
@[inline] def initializerClause (sub : Readers) : Parser (Option Expr) := do
  if ← accepts (.symbol .equal) then
    let value : Expr ← sub .expression
    return some value
  else
    return none

/-- A variable declaration from the name on. -/
@[inline] def varDeclaration (sub : Readers) : Parser Stmt := do
  let name ← expectName .variable_
  let initializer ← initializerClause sub
  let _ ← expectSymbol .semicolon .afterVariableDeclaration
  return .var name initializer

/-- A declaration or a statement, without recovery. -/
@[inline] def plainDeclaration (sub : Readers) : Parser Stmt := do
  if ← accepts (.keyword .class_) then
    classDeclaration sub
  else if ← accepts (.keyword .fun_) then
    return .function (← function sub .function)
  else if ← accepts (.keyword .var_) then
    varDeclaration sub
  else
    sub .statement

/-- A declaration or a statement. After a fault, which is noted, reading goes on at the next likely
boundary between statements. -/
@[inline] def declaration (sub : Readers) : Parser (Option Stmt) :=
  tryCatch (some <$> plainDeclaration sub) fun
    | .fault error => do
        note error
        synchronize
        return none
    | .outOfFuel => throw .outOfFuel

/-- Declarations up to the closing brace, or up to the end outside a block. -/
@[inline] def declarations (sub : Readers) (inBlock : Bool) : Parser (List Stmt) := do
  if (inBlock && (← sees (.symbol .rightBrace))) || (← atEnd) then
    return []
  else
    let first : Option Stmt ← sub .declaration
    let rest : List Stmt ← sub (.declarations inBlock)
    return first.toList ++ rest

/-! ## Statements -/

/-- An expression and its semicolon. -/
@[inline] def expressionStatement (sub : Readers) : Parser Stmt := do
  let value : Expr ← sub .expression
  let _ ← expectSymbol .semicolon .afterExpressionStatement
  return .expression value

/-- An expression unless the symbol follows at once. -/
@[inline] def expressionUnless (sub : Readers) (symbol : Symbol) : Parser (Option Expr) := do
  if ← sees (.symbol symbol) then
    return none
  else
    let value : Expr ← sub .expression
    return some value

/-- The first clause of a `for` loop with its semicolon: a variable, an expression or nothing. -/
@[inline] def forInitializer (sub : Readers) : Parser (Option Stmt) := do
  if ← accepts (.symbol .semicolon) then
    return none
  else if ← accepts (.keyword .var_) then
    some <$> varDeclaration sub
  else
    some <$> expressionStatement sub

/-- The condition of a `for` loop, which is `true` if it was left out. -/
@[inline] def orTrue (condition : Option Expr) : Parser Expr := do
  match condition with
  | some condition => return condition
  | none => return .literal (← freshId) (.bool true)

/-- A `for` loop from its opening parenthesis on. It is a block of the initializer and a `while`
loop, whose body ends with the increment. -/
@[inline] def forStatement (sub : Readers) : Parser Stmt := do
  let _ ← expectSymbol .leftParen (.afterKeyword .for_)
  let initializer ← forInitializer sub
  let condition ← expressionUnless sub .semicolon
  let _ ← expectSymbol .semicolon .afterLoopCondition
  let increment ← expressionUnless sub .rightParen
  let _ ← expectSymbol .rightParen .afterForClauses
  let statement : Stmt ← sub .statement
  let body : Stmt :=
    match increment with
    | some increment => .block [statement, .expression increment]
    | none => statement
  let condition ← orTrue condition
  let loop : Stmt := .while_ condition body
  match initializer with
  | some initializer => return .block [initializer, loop]
  | none => return loop

/-- An `if` statement from its opening parenthesis on. An `else` belongs to the nearest `if`. -/
@[inline] def ifStatement (sub : Readers) : Parser Stmt := do
  let _ ← expectSymbol .leftParen (.afterKeyword .if_)
  let condition : Expr ← sub .expression
  let _ ← expectSymbol .rightParen .afterIfCondition
  let thenBranch : Stmt ← sub .statement
  if ← accepts (.keyword .else_) then
    let elseBranch : Stmt ← sub .statement
    return .ifElse condition thenBranch elseBranch
  else
    return .ifThen condition thenBranch

/-- A `print` statement from its expression on. -/
@[inline] def printStatement (sub : Readers) : Parser Stmt := do
  let value : Expr ← sub .expression
  let _ ← expectSymbol .semicolon .afterPrintedValue
  return .print value

/-- A `return` statement after its keyword. -/
@[inline] def returnStatement (sub : Readers) (keyword : Token) : Parser Stmt := do
  let value ← expressionUnless sub .semicolon
  let _ ← expectSymbol .semicolon .afterReturnValue
  return .return_ keyword value

/-- A `while` loop from its opening parenthesis on. -/
@[inline] def whileStatement (sub : Readers) : Parser Stmt := do
  let _ ← expectSymbol .leftParen (.afterKeyword .while_)
  let condition : Expr ← sub .expression
  let _ ← expectSymbol .rightParen .afterWhileCondition
  let body : Stmt ← sub .statement
  return .while_ condition body

/-- A statement. -/
@[inline] def statement (sub : Readers) : Parser Stmt := do
  let keyword ← peek
  if ← accepts (.keyword .for_) then
    forStatement sub
  else if ← accepts (.keyword .if_) then
    ifStatement sub
  else if ← accepts (.keyword .print_) then
    printStatement sub
  else if ← accepts (.keyword .return_) then
    returnStatement sub keyword
  else if ← accepts (.keyword .while_) then
    whileStatement sub
  else if ← accepts (.symbol .leftBrace) then
    return .block (← block sub)
  else
    expressionStatement sub

end Lox.Grammar
