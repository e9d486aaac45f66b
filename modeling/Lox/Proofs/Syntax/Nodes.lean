import Lox.Syntax.Uses
import Mathlib.Data.List.Perm.Subperm

/-!
# The identities in a tree

The identities of all expressions in a tree, children before the expression around them. Every
use of a name has the identity of an expression of its own.
-/

namespace Lox

mutual

/-- The identities in an expression. -/
def Expr.nodes : Expr → List NodeId
  | .literal id _ | .var id _ | .super_ id _ _ | .this_ id _ => [id]
  | .grouping id inner => inner.nodes ++ [id]
  | .unary id _ operand => operand.nodes ++ [id]
  | .binary id left _ right | .logical id left _ right => left.nodes ++ right.nodes ++ [id]
  | .assign id _ value => value.nodes ++ [id]
  | .call id callee _ arguments => callee.nodes ++ Expr.nodesAll arguments ++ [id]
  | .get id object _ => object.nodes ++ [id]
  | .set id object _ value => object.nodes ++ value.nodes ++ [id]

/-- The identities in a list of expressions. -/
def Expr.nodesAll : List Expr → List NodeId
  | [] => []
  | e :: rest => e.nodes ++ Expr.nodesAll rest

end

/-- The identities in an expression that may be missing. -/
def Expr.nodesOpt : Option Expr → List NodeId
  | none => []
  | some e => e.nodes

mutual

/-- The identities in a statement. -/
def Stmt.nodes : Stmt → List NodeId
  | .expression value | .print value => value.nodes
  | .var _ initializer => Expr.nodesOpt initializer
  | .block body => Stmt.nodesAll body
  | .function declaration => declaration.nodes
  | .class_ _ superclass methods => Expr.nodesOpt superclass ++ FunctionDecl.nodesAll methods
  | .ifThen condition thenBranch => condition.nodes ++ thenBranch.nodes
  | .ifElse condition thenBranch elseBranch =>
      condition.nodes ++ thenBranch.nodes ++ elseBranch.nodes
  | .while_ condition body => condition.nodes ++ body.nodes
  | .return_ _ value => Expr.nodesOpt value

/-- The identities in a list of statements. -/
def Stmt.nodesAll : List Stmt → List NodeId
  | [] => []
  | s :: rest => s.nodes ++ Stmt.nodesAll rest

/-- The identities in the body of a function. -/
def FunctionDecl.nodes : FunctionDecl → List NodeId
  | ⟨_, _, body⟩ => Stmt.nodesAll body

/-- The identities in the bodies of a list of methods. -/
def FunctionDecl.nodesAll : List FunctionDecl → List NodeId
  | [] => []
  | d :: rest => d.nodes ++ FunctionDecl.nodesAll rest

end

theorem Stmt.nodesAll_append (xs ys : List Stmt) :
    Stmt.nodesAll (xs ++ ys) = Stmt.nodesAll xs ++ Stmt.nodesAll ys := by
  induction xs with
  | nil => rfl
  | cons s rest ih => simp [Stmt.nodesAll, ih]

/-! ## Uses have identities of their own -/

/-- Every use is an expression. -/
def Owned (uses : List Use) (nodes : List NodeId) : Prop :=
  (uses.map Use.node).Subperm nodes

namespace Owned

variable {xs ys : List Use} {ns ms : List NodeId}

theorem append (hx : Owned xs ns) (hy : Owned ys ms) : Owned (xs ++ ys) (ns ++ ms) := by
  rw [Owned, List.map_append]
  exact List.Subperm.append hx hy

theorem widen (h : Owned xs ns) (id : NodeId) : Owned xs (ns ++ [id]) :=
  h.trans (List.sublist_append_left ns [id]).subperm

theorem cons (h : Owned xs ns) (u : Use) : Owned (u :: xs) (ns ++ [u.node]) :=
  ((List.subperm_cons u.node).mpr h).trans (List.perm_append_singleton u.node ns).symm.subperm

end Owned

mutual

theorem Expr.uses_owned (e : Expr) : Owned e.uses e.nodes := by
  cases e with
  | literal id value => exact List.nil_subperm
  | grouping id inner => exact inner.uses_owned.widen id
  | unary id operator operand => exact operand.uses_owned.widen id
  | binary id left operator right => exact (left.uses_owned.append right.uses_owned).widen id
  | logical id left operator right => exact (left.uses_owned.append right.uses_owned).widen id
  | var id name => exact List.Subperm.refl _
  | assign id name value => exact value.uses_owned.cons _
  | call id callee paren arguments =>
      exact (callee.uses_owned.append (Expr.usesAll_owned arguments)).widen id
  | get id object name => exact object.uses_owned.widen id
  | set id object name value => exact (object.uses_owned.append value.uses_owned).widen id
  | super_ id keyword method => exact List.Subperm.refl _
  | this_ id keyword => exact List.Subperm.refl _

theorem Expr.usesAll_owned (es : List Expr) : Owned (Expr.usesAll es) (Expr.nodesAll es) := by
  cases es with
  | nil => exact List.nil_subperm
  | cons e rest => exact e.uses_owned.append (Expr.usesAll_owned rest)

end

theorem Expr.usesOpt_owned (e : Option Expr) : Owned (Expr.usesOpt e) (Expr.nodesOpt e) := by
  cases e with
  | none => exact List.nil_subperm
  | some e => exact e.uses_owned

mutual

theorem Stmt.uses_owned (s : Stmt) : Owned s.uses s.nodes := by
  cases s with
  | expression value => exact value.uses_owned
  | print value => exact value.uses_owned
  | var name initializer => exact Expr.usesOpt_owned initializer
  | block body => exact Stmt.usesAll_owned body
  | function declaration => exact declaration.uses_owned
  | class_ name superclass methods =>
      exact (Expr.usesOpt_owned superclass).append (FunctionDecl.usesAll_owned methods)
  | ifThen condition thenBranch => exact condition.uses_owned.append thenBranch.uses_owned
  | ifElse condition thenBranch elseBranch =>
      exact (condition.uses_owned.append thenBranch.uses_owned).append elseBranch.uses_owned
  | while_ condition body => exact condition.uses_owned.append body.uses_owned
  | return_ keyword value => exact Expr.usesOpt_owned value

theorem Stmt.usesAll_owned (statements : List Stmt) :
    Owned (Stmt.usesAll statements) (Stmt.nodesAll statements) := by
  cases statements with
  | nil => exact List.nil_subperm
  | cons s rest => exact s.uses_owned.append (Stmt.usesAll_owned rest)

theorem FunctionDecl.uses_owned (declaration : FunctionDecl) :
    Owned declaration.uses declaration.nodes := by
  cases declaration with
  | mk name parameters body => exact Stmt.usesAll_owned body

theorem FunctionDecl.usesAll_owned (methods : List FunctionDecl) :
    Owned (FunctionDecl.usesAll methods) (FunctionDecl.nodesAll methods) := by
  cases methods with
  | nil => exact List.nil_subperm
  | cons method rest => exact method.uses_owned.append (FunctionDecl.usesAll_owned rest)

end

end Lox
