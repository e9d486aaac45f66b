import Lox.Syntax.Basic

/-!
# Regions

A region is a piece of a program that has a scope of its own. Every environment but the global one
is made for a region and remembers which.
-/

namespace Lox

/-- A piece of a program with a scope of its own: a block, a function with its parameters and its
body, a method with `this` around it, or the methods of a class with `super` around them. -/
inductive Region where
  | block (body : List Stmt)
  | function (declaration : FunctionDecl)
  | receiver (method : FunctionDecl)
  | superclass (methods : List FunctionDecl)

end Lox
