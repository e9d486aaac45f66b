import Lox.Grammar.Cursor

/-!
# The rules of the grammar

`Rule` lists the rules and `Rule.Tree` the trees that they give. How a rule reads its input is
defined for any reader of the rules that it refers to, so that each rule stands by itself.
-/

namespace Lox.Grammar

/-- A rule of the grammar, with what it needs to know of the input before it. -/
inductive Rule where
  /-- Declarations up to the closing brace, or up to the end outside a block. -/
  | declarations (inBlock : Bool)
  /-- A declaration or a statement. -/
  | declaration
  /-- A statement. -/
  | statement
  /-- The methods of a class. -/
  | methods
  /-- The parameters from the one with index `count` on. -/
  | parameters (count : Nat)
  /-- An expression, which may be an assignment. -/
  | expression
  /-- Operands joined by operators of at least the given level. -/
  | operation (level : Nat)
  /-- The operators of at least the given level, and their right operands, after `left`. -/
  | operators (level : Nat) (left : Expr)
  /-- A negated expression or a call. -/
  | unary
  /-- A primary expression with calls and properties after it. -/
  | call
  /-- The calls and properties after an expression. -/
  | suffixes (left : Expr)
  /-- The arguments from the one with index `count` on. -/
  | arguments (count : Nat)
  /-- A constant, a name or an expression in parentheses. -/
  | primary

namespace Rule

/-- What a rule gives. A declaration that is not understood gives nothing. -/
@[reducible] def Tree : Rule → Type
  | declarations _ => List Stmt
  | declaration => Option Stmt
  | statement => Stmt
  | methods => List FunctionDecl
  | parameters _ => List Token
  | arguments _ => List Expr
  | expression | operation _ | operators _ _ | unary | call | suffixes _ | primary => Expr

end Rule

/-- A reader for every rule. -/
abbrev Readers := (rule : Rule) → Parser rule.Tree

end Lox.Grammar
