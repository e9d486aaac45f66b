import Lox.Syntax.Basic

/-!
# Uses of names

The occurrences of names in a tree, in the order in which a reader meets them: an assignment
before its value, an object before the value stored in it, a superclass before the methods.
-/

namespace Lox

/-- How a name is used. -/
inductive UseKind where
  | var
  | assign
  | this_
  | super_
  deriving DecidableEq, Repr

/-- An occurrence of a name or of a keyword that stands for one. -/
structure Use where
  kind : UseKind
  token : Token
  node : NodeId

mutual

/-- The uses in an expression. -/
def Expr.uses : Expr → List Use
  | .literal _ _ => []
  | .grouping _ inner => inner.uses
  | .unary _ _ operand => operand.uses
  | .binary _ left _ right | .logical _ left _ right => left.uses ++ right.uses
  | .var id name => [⟨.var, name, id⟩]
  | .assign id name value => ⟨.assign, name, id⟩ :: value.uses
  | .call _ callee _ arguments => callee.uses ++ Expr.usesAll arguments
  | .get _ object _ => object.uses
  | .set _ object _ value => object.uses ++ value.uses
  | .super_ id keyword _ => [⟨.super_, keyword, id⟩]
  | .this_ id keyword => [⟨.this_, keyword, id⟩]

/-- The uses in a list of expressions. -/
def Expr.usesAll : List Expr → List Use
  | [] => []
  | e :: rest => e.uses ++ Expr.usesAll rest

end

/-- The uses in an expression that may be missing. -/
def Expr.usesOpt : Option Expr → List Use
  | none => []
  | some e => e.uses

mutual

/-- The uses in a statement. -/
def Stmt.uses : Stmt → List Use
  | .expression value | .print value => value.uses
  | .var _ initializer => Expr.usesOpt initializer
  | .block body => Stmt.usesAll body
  | .function declaration => declaration.uses
  | .class_ _ superclass methods => Expr.usesOpt superclass ++ FunctionDecl.usesAll methods
  | .ifThen condition thenBranch => condition.uses ++ thenBranch.uses
  | .ifElse condition thenBranch elseBranch =>
      condition.uses ++ thenBranch.uses ++ elseBranch.uses
  | .while_ condition body => condition.uses ++ body.uses
  | .return_ _ value => Expr.usesOpt value

/-- The uses in a list of statements. -/
def Stmt.usesAll : List Stmt → List Use
  | [] => []
  | s :: rest => s.uses ++ Stmt.usesAll rest

/-- The uses in the body of a function. -/
def FunctionDecl.uses : FunctionDecl → List Use
  | ⟨_, _, body⟩ => Stmt.usesAll body

/-- The uses in the bodies of a list of methods. -/
def FunctionDecl.usesAll : List FunctionDecl → List Use
  | [] => []
  | d :: rest => d.uses ++ FunctionDecl.usesAll rest

end

end Lox
