import Lox.Token.Basic

/-!
# Syntax trees

Expressions, statements and function declarations. Every expression carries an identity, by which
the scopes of its names are recorded; operators and names are kept as tokens, so that a message
can point at them. There is no form for a `for` loop, which is a block with a `while` loop.
-/

namespace Lox

/-- The identity of an expression. -/
abbrev NodeId := Nat

/-- A constant in the source. -/
inductive Literal where
  | number (value : Float)
  | string (contents : String)
  | bool (value : Bool)
  | nil

/-- An expression. -/
inductive Expr where
  | literal (id : NodeId) (value : Literal)
  | grouping (id : NodeId) (inner : Expr)
  | unary (id : NodeId) (operator : Token) (operand : Expr)
  | binary (id : NodeId) (left : Expr) (operator : Token) (right : Expr)
  | logical (id : NodeId) (left : Expr) (operator : Token) (right : Expr)
  | var (id : NodeId) (name : Token)
  | assign (id : NodeId) (name : Token) (value : Expr)
  | call (id : NodeId) (callee : Expr) (paren : Token) (arguments : List Expr)
  | get (id : NodeId) (object : Expr) (name : Token)
  | set (id : NodeId) (object : Expr) (name : Token) (value : Expr)
  | super_ (id : NodeId) (keyword : Token) (method : Token)
  | this_ (id : NodeId) (keyword : Token)

instance : Inhabited Expr := ⟨.literal 0 .nil⟩

mutual

/-- A statement. The superclass of a class is the name of a variable, kept as an expression. -/
inductive Stmt where
  | expression (value : Expr)
  | print (value : Expr)
  | var (name : Token) (initializer : Option Expr)
  | block (body : List Stmt)
  | function (declaration : FunctionDecl)
  | class_ (name : Token) (superclass : Option Expr) (methods : List FunctionDecl)
  | ifThen (condition : Expr) (thenBranch : Stmt)
  | ifElse (condition : Expr) (thenBranch elseBranch : Stmt)
  | while_ (condition : Expr) (body : Stmt)
  | return_ (keyword : Token) (value : Option Expr)

/-- A function or method: its name, its parameters and its body. -/
structure FunctionDecl where
  name : Token
  parameters : List Token
  body : List Stmt

end

instance : Inhabited Stmt := ⟨.block []⟩
instance : Inhabited FunctionDecl := ⟨⟨default, [], []⟩⟩

/-- The identity of the expression itself. -/
def Expr.id : Expr → NodeId
  | literal id _ | grouping id _ | unary id _ _ | binary id _ _ _ | logical id _ _ _ | var id _
  | assign id _ _ | call id _ _ _ | get id _ _ | set id _ _ _ | super_ id _ _ | this_ id _ => id

/-- Whether a method of this name initializes new instances. -/
def FunctionDecl.isInitializer (declaration : FunctionDecl) : Bool :=
  declaration.name.lexeme == "init"

end Lox
