import Lox.Grammar.Cursor

/-!
# The grammar of the language

Which tokens a phrase of the language consists of, and the tree that it stands for, said without
a parser. Trees have the identity 0 throughout. An `if` without an `else` makes the grammar
ambiguous, so that a derivation may be asked to attach each `else` to the nearest `if`.
-/

namespace Lox.Grammar

/-! ## Expressions in layers -/

/-- The layers of expressions, from the loosest to the tightest. -/
inductive Layer where
  | assignment
  | logicOr
  | logicAnd
  | equality
  | comparison
  | term
  | factor
  | unary
  | call
  | primary
  deriving DecidableEq

namespace Layer

/-- The next tighter layer. -/
def inner : Layer → Option Layer
  | assignment => some logicOr
  | logicOr => some logicAnd
  | logicAnd => some equality
  | equality => some comparison
  | comparison => some term
  | term => some factor
  | factor => some unary
  | unary => some call
  | call => some primary
  | primary => none

/-- The infix operators of the layer. -/
def operators : Layer → List Category
  | logicOr => [.keyword .or_]
  | logicAnd => [.keyword .and_]
  | equality => [.symbol .bangEqual, .symbol .equalEqual]
  | comparison => [.symbol .greater, .symbol .greaterEqual, .symbol .less, .symbol .lessEqual]
  | term => [.symbol .minus, .symbol .plus]
  | factor => [.symbol .slash, .symbol .star]
  | _ => []

/-- The tree of an infix operator of the layer with its operands. -/
def join (layer : Layer) (left : Expr) (operator : Token) (right : Expr) : Expr :=
  if layer = logicOr ∨ layer = logicAnd then .logical 0 left operator right
  else .binary 0 left operator right

end Layer

/-! ## Phrases -/

/-- The kinds of phrases. A statement is dangling if it ends with an `if` that has no `else`, so
that an `else` after it would belong to that `if`. -/
inductive Phrase where
  | declarations
  | declaration
  | classDeclaration
  | variableDeclaration
  | functions
  | function
  | parameterList
  | parameters
  | block
  | statement (dangling : Bool)
  | forInitializer
  | optionalExpression
  | expression (layer : Layer)
  | argumentList
  | arguments

/-- What a phrase stands for. -/
@[reducible] def Phrase.Tree : Phrase → Type
  | declarations | block => List Stmt
  | declaration | classDeclaration | variableDeclaration | statement _ => Stmt
  | functions => List FunctionDecl
  | function => FunctionDecl
  | parameterList | parameters => List Token
  | forInitializer => Option Stmt
  | optionalExpression => Option Expr
  | expression _ => Expr
  | argumentList | arguments => List Expr

/-- The loop that a `for` stands for: its initializer and a `while` loop in a block, where the body
and the increment make up a block. What is left out needs no block, and a condition left out is
true. -/
def desugarFor (initializer : Option Stmt) (condition increment : Option Expr) (body : Stmt) :
    Stmt :=
  let body :=
    match increment with
    | some increment => .block [body, .expression increment]
    | none => body
  let loop := .while_ (condition.getD (.literal 0 (.bool true))) body
  match initializer with
  | some initializer => .block [initializer, loop]
  | none => loop

/-- `Derives nearest phrase tokens tree`: the tokens make up a phrase of this kind and stand for
the tree. With `nearest`, an `else` belongs to the nearest `if` that is still open. -/
inductive Derives (nearest : Bool) : (phrase : Phrase) → List Token → phrase.Tree → Prop where
  -- declarations → declaration*
  | noDeclarations : Derives nearest .declarations [] []
  | moreDeclarations {first rest : List Token} {tree : Stmt} {trees : List Stmt} :
      Derives nearest .declaration first tree → Derives nearest .declarations rest trees →
      Derives nearest .declarations (first ++ rest) (tree :: trees)
  -- declaration → classDecl | funDecl | varDecl | statement
  | classDeclaration {tokens : List Token} {tree : Stmt} :
      Derives nearest .classDeclaration tokens tree → Derives nearest .declaration tokens tree
  | functionDeclaration {keyword : Token} {tokens : List Token} {tree : FunctionDecl} :
      keyword.category = .keyword .fun_ → Derives nearest .function tokens tree →
      Derives nearest .declaration (keyword :: tokens) (.function tree)
  | variableDeclaration {tokens : List Token} {tree : Stmt} :
      Derives nearest .variableDeclaration tokens tree → Derives nearest .declaration tokens tree
  | statement {dangling : Bool} {tokens : List Token} {tree : Stmt} :
      Derives nearest (.statement dangling) tokens tree → Derives nearest .declaration tokens tree
  -- classDecl → "class" IDENT ( "<" IDENT )? "{" function* "}"
  | class_ {keyword name left right : Token} {tokens : List Token} {trees : List FunctionDecl} :
      keyword.category = .keyword .class_ → name.category = .identifier →
      left.category = .symbol .leftBrace → Derives nearest .functions tokens trees →
      right.category = .symbol .rightBrace →
      Derives nearest .classDeclaration (keyword :: name :: left :: (tokens ++ [right]))
        (.class_ name none trees)
  | subclass {keyword name less superclass left right : Token} {tokens : List Token}
      {trees : List FunctionDecl} :
      keyword.category = .keyword .class_ → name.category = .identifier →
      less.category = .symbol .less → superclass.category = .identifier →
      left.category = .symbol .leftBrace → Derives nearest .functions tokens trees →
      right.category = .symbol .rightBrace →
      Derives nearest .classDeclaration
        (keyword :: name :: less :: superclass :: left :: (tokens ++ [right]))
        (.class_ name (some (.var 0 superclass)) trees)
  | noFunctions : Derives nearest .functions [] []
  | moreFunctions {first rest : List Token} {tree : FunctionDecl} {trees : List FunctionDecl} :
      Derives nearest .function first tree → Derives nearest .functions rest trees →
      Derives nearest .functions (first ++ rest) (tree :: trees)
  -- function → IDENT "(" parameters? ")" block
  | function {name left right : Token} {tokens body : List Token} {names : List Token}
      {trees : List Stmt} :
      name.category = .identifier → left.category = .symbol .leftParen →
      Derives nearest .parameterList tokens names → right.category = .symbol .rightParen →
      Derives nearest .block body trees →
      Derives nearest .function (name :: left :: (tokens ++ right :: body)) ⟨name, names, trees⟩
  | noParameters : Derives nearest .parameterList [] []
  | someParameters {tokens names : List Token} :
      Derives nearest .parameters tokens names → names.length ≤ 8 →
      Derives nearest .parameterList tokens names
  -- parameters → IDENT ( "," IDENT )*
  | lastParameter {name : Token} :
      name.category = .identifier → Derives nearest .parameters [name] [name]
  | moreParameters {name comma : Token} {tokens names : List Token} :
      name.category = .identifier → comma.category = .symbol .comma →
      Derives nearest .parameters tokens names →
      Derives nearest .parameters (name :: comma :: tokens) (name :: names)
  -- varDecl → "var" IDENT ( "=" expression )? ";"
  | variable_ {keyword name semicolon : Token} :
      keyword.category = .keyword .var_ → name.category = .identifier →
      semicolon.category = .symbol .semicolon →
      Derives nearest .variableDeclaration [keyword, name, semicolon] (.var name none)
  | initializedVariable {keyword name equal semicolon : Token} {tokens : List Token}
      {value : Expr} :
      keyword.category = .keyword .var_ → name.category = .identifier →
      equal.category = .symbol .equal → Derives nearest (.expression .assignment) tokens value →
      semicolon.category = .symbol .semicolon →
      Derives nearest .variableDeclaration (keyword :: name :: equal :: (tokens ++ [semicolon]))
        (.var name (some value))
  -- block → "{" declaration* "}"
  | block {left right : Token} {tokens : List Token} {trees : List Stmt} :
      left.category = .symbol .leftBrace → Derives nearest .declarations tokens trees →
      right.category = .symbol .rightBrace →
      Derives nearest .block (left :: (tokens ++ [right])) trees
  -- statement → exprStmt | forStmt | ifStmt | printStmt | returnStmt | whileStmt | block
  | expressionStatement {semicolon : Token} {tokens : List Token} {value : Expr} :
      Derives nearest (.expression .assignment) tokens value →
      semicolon.category = .symbol .semicolon →
      Derives nearest (.statement false) (tokens ++ [semicolon]) (.expression value)
  | print {keyword semicolon : Token} {tokens : List Token} {value : Expr} :
      keyword.category = .keyword .print_ →
      Derives nearest (.expression .assignment) tokens value →
      semicolon.category = .symbol .semicolon →
      Derives nearest (.statement false) (keyword :: (tokens ++ [semicolon])) (.print value)
  | return_ {keyword semicolon : Token} {tokens : List Token} {value : Option Expr} :
      keyword.category = .keyword .return_ →
      Derives nearest .optionalExpression tokens value →
      semicolon.category = .symbol .semicolon →
      Derives nearest (.statement false) (keyword :: (tokens ++ [semicolon]))
        (.return_ keyword value)
  | blockStatement {tokens : List Token} {trees : List Stmt} :
      Derives nearest .block tokens trees →
      Derives nearest (.statement false) tokens (.block trees)
  -- ifStmt → "if" "(" expression ")" statement ( "else" statement )?
  | ifThen {keyword left right : Token} {test branch : List Token} {condition : Expr}
      {thenBranch : Stmt} {dangling : Bool} :
      keyword.category = .keyword .if_ → left.category = .symbol .leftParen →
      Derives nearest (.expression .assignment) test condition →
      right.category = .symbol .rightParen →
      Derives nearest (.statement dangling) branch thenBranch →
      Derives nearest (.statement true) (keyword :: left :: (test ++ right :: branch))
        (.ifThen condition thenBranch)
  | ifElse {keyword left right else_ : Token} {test first second : List Token} {condition : Expr}
      {thenBranch elseBranch : Stmt} {open_ dangling : Bool} :
      keyword.category = .keyword .if_ → left.category = .symbol .leftParen →
      Derives nearest (.expression .assignment) test condition →
      right.category = .symbol .rightParen →
      Derives nearest (.statement open_) first thenBranch →
      (nearest = true → open_ = false) →
      else_.category = .keyword .else_ →
      Derives nearest (.statement dangling) second elseBranch →
      Derives nearest (.statement dangling)
        (keyword :: left :: (test ++ right :: (first ++ else_ :: second)))
        (.ifElse condition thenBranch elseBranch)
  -- whileStmt → "while" "(" expression ")" statement
  | while_ {keyword left right : Token} {test tokens : List Token} {condition : Expr} {body : Stmt}
      {dangling : Bool} :
      keyword.category = .keyword .while_ → left.category = .symbol .leftParen →
      Derives nearest (.expression .assignment) test condition →
      right.category = .symbol .rightParen →
      Derives nearest (.statement dangling) tokens body →
      Derives nearest (.statement dangling) (keyword :: left :: (test ++ right :: tokens))
        (.while_ condition body)
  -- forStmt → "for" "(" ( varDecl | exprStmt | ";" ) expression? ";" expression? ")" statement
  | for_ {keyword left semicolon right : Token} {first test step tokens : List Token}
      {initializer : Option Stmt} {condition increment : Option Expr} {body : Stmt}
      {dangling : Bool} :
      keyword.category = .keyword .for_ → left.category = .symbol .leftParen →
      Derives nearest .forInitializer first initializer →
      Derives nearest .optionalExpression test condition →
      semicolon.category = .symbol .semicolon →
      Derives nearest .optionalExpression step increment →
      right.category = .symbol .rightParen →
      Derives nearest (.statement dangling) tokens body →
      Derives nearest (.statement dangling)
        (keyword :: left :: (first ++ (test ++ semicolon :: (step ++ right :: tokens))))
        (desugarFor initializer condition increment body)
  | noInitializer {semicolon : Token} :
      semicolon.category = .symbol .semicolon →
      Derives nearest .forInitializer [semicolon] none
  | variableInitializer {tokens : List Token} {tree : Stmt} :
      Derives nearest .variableDeclaration tokens tree →
      Derives nearest .forInitializer tokens (some tree)
  | expressionInitializer {semicolon : Token} {tokens : List Token} {value : Expr} :
      Derives nearest (.expression .assignment) tokens value →
      semicolon.category = .symbol .semicolon →
      Derives nearest .forInitializer (tokens ++ [semicolon]) (some (.expression value))
  | noExpression : Derives nearest .optionalExpression [] none
  | someExpression {tokens : List Token} {value : Expr} :
      Derives nearest (.expression .assignment) tokens value →
      Derives nearest .optionalExpression tokens (some value)
  -- assignment → ( call "." )? IDENT "=" assignment | logic_or
  | assign {name equal : Token} {tokens : List Token} {value : Expr} :
      name.category = .identifier → equal.category = .symbol .equal →
      Derives nearest (.expression .assignment) tokens value →
      Derives nearest (.expression .assignment) (name :: equal :: tokens) (.assign 0 name value)
  | set {dot name equal : Token} {first tokens : List Token} {object value : Expr} :
      Derives nearest (.expression .call) first object → dot.category = .symbol .dot →
      name.category = .identifier → equal.category = .symbol .equal →
      Derives nearest (.expression .assignment) tokens value →
      Derives nearest (.expression .assignment) (first ++ dot :: name :: equal :: tokens)
        (.set 0 object name value)
  -- every layer holds the expressions of the next tighter one
  | tighter {layer inner : Layer} {tokens : List Token} {tree : Expr} :
      layer.inner = some inner → Derives nearest (.expression inner) tokens tree →
      Derives nearest (.expression layer) tokens tree
  -- logic_or → logic_and ( "or" logic_and )*, and so on to factor, joined to the left
  | infix_ {layer inner : Layer} {operator : Token} {first second : List Token}
      {left right : Expr} :
      layer.inner = some inner → operator.category ∈ layer.operators →
      Derives nearest (.expression layer) first left →
      Derives nearest (.expression inner) second right →
      Derives nearest (.expression layer) (first ++ operator :: second)
        (layer.join left operator right)
  -- unary → ( "!" | "-" ) unary | call
  | unary {operator : Token} {tokens : List Token} {operand : Expr} :
      operator.category = .symbol .bang ∨ operator.category = .symbol .minus →
      Derives nearest (.expression .unary) tokens operand →
      Derives nearest (.expression .unary) (operator :: tokens) (.unary 0 operator operand)
  -- call → primary ( "(" arguments? ")" | "." IDENT )*
  | call {left right : Token} {first tokens : List Token} {callee : Expr} {trees : List Expr} :
      Derives nearest (.expression .call) first callee → left.category = .symbol .leftParen →
      Derives nearest .argumentList tokens trees → right.category = .symbol .rightParen →
      Derives nearest (.expression .call) (first ++ left :: (tokens ++ [right]))
        (.call 0 callee right trees)
  | property {dot name : Token} {first : List Token} {object : Expr} :
      Derives nearest (.expression .call) first object → dot.category = .symbol .dot →
      name.category = .identifier →
      Derives nearest (.expression .call) (first ++ [dot, name]) (.get 0 object name)
  | noArguments : Derives nearest .argumentList [] []
  | someArguments {tokens : List Token} {trees : List Expr} :
      Derives nearest .arguments tokens trees → trees.length ≤ 8 →
      Derives nearest .argumentList tokens trees
  -- arguments → expression ( "," expression )*
  | lastArgument {tokens : List Token} {tree : Expr} :
      Derives nearest (.expression .assignment) tokens tree →
      Derives nearest .arguments tokens [tree]
  | moreArguments {comma : Token} {first rest : List Token} {tree : Expr} {trees : List Expr} :
      Derives nearest (.expression .assignment) first tree → comma.category = .symbol .comma →
      Derives nearest .arguments rest trees →
      Derives nearest .arguments (first ++ comma :: rest) (tree :: trees)
  -- primary → NUMBER | STRING | "true" | "false" | "nil" | "this" | IDENT | "(" expression ")"
  --         | "super" "." IDENT
  | number {token : Token} {value : Float} :
      token.kind = .number value →
      Derives nearest (.expression .primary) [token] (.literal 0 (.number value))
  | string {token : Token} {contents : String} :
      token.kind = .string contents →
      Derives nearest (.expression .primary) [token] (.literal 0 (.string contents))
  | true_ {token : Token} :
      token.kind = .keyword .true_ →
      Derives nearest (.expression .primary) [token] (.literal 0 (.bool true))
  | false_ {token : Token} :
      token.kind = .keyword .false_ →
      Derives nearest (.expression .primary) [token] (.literal 0 (.bool false))
  | nil_ {token : Token} :
      token.kind = .keyword .nil_ →
      Derives nearest (.expression .primary) [token] (.literal 0 .nil)
  | this_ {keyword : Token} :
      keyword.category = .keyword .this_ →
      Derives nearest (.expression .primary) [keyword] (.this_ 0 keyword)
  | name {name : Token} :
      name.category = .identifier →
      Derives nearest (.expression .primary) [name] (.var 0 name)
  | grouping {left right : Token} {tokens : List Token} {inner : Expr} :
      left.category = .symbol .leftParen →
      Derives nearest (.expression .assignment) tokens inner →
      right.category = .symbol .rightParen →
      Derives nearest (.expression .primary) (left :: (tokens ++ [right])) (.grouping 0 inner)
  | super_ {keyword dot method : Token} :
      keyword.category = .keyword .super_ → dot.category = .symbol .dot →
      method.category = .identifier →
      Derives nearest (.expression .primary) [keyword, dot, method] (.super_ 0 keyword method)

end Lox.Grammar
