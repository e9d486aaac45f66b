import Lox.Syntax.Basic

/-!
# Trees up to identities

Two trees are the same up to the identities of their expressions if they are equal once every
identity is replaced by 0.
-/

namespace Lox

mutual

/-- The expression with every identity replaced by 0. -/
def Expr.erase : Expr → Expr
  | .literal _ value => .literal 0 value
  | .grouping _ inner => .grouping 0 inner.erase
  | .unary _ operator operand => .unary 0 operator operand.erase
  | .binary _ left operator right => .binary 0 left.erase operator right.erase
  | .logical _ left operator right => .logical 0 left.erase operator right.erase
  | .var _ name => .var 0 name
  | .assign _ name value => .assign 0 name value.erase
  | .call _ callee paren arguments => .call 0 callee.erase paren (Expr.eraseAll arguments)
  | .get _ object name => .get 0 object.erase name
  | .set _ object name value => .set 0 object.erase name value.erase
  | .super_ _ keyword method => .super_ 0 keyword method
  | .this_ _ keyword => .this_ 0 keyword

/-- The expressions with every identity replaced by 0. -/
def Expr.eraseAll : List Expr → List Expr
  | [] => []
  | e :: rest => e.erase :: Expr.eraseAll rest

end

mutual

/-- The statement with every identity replaced by 0. -/
def Stmt.erase : Stmt → Stmt
  | .expression value => .expression value.erase
  | .print value => .print value.erase
  | .var name initializer => .var name (initializer.map Expr.erase)
  | .block body => .block (Stmt.eraseAll body)
  | .function declaration => .function declaration.erase
  | .class_ name superclass methods =>
      .class_ name (superclass.map Expr.erase) (FunctionDecl.eraseAll methods)
  | .ifThen condition thenBranch => .ifThen condition.erase thenBranch.erase
  | .ifElse condition thenBranch elseBranch =>
      .ifElse condition.erase thenBranch.erase elseBranch.erase
  | .while_ condition body => .while_ condition.erase body.erase
  | .return_ keyword value => .return_ keyword (value.map Expr.erase)

/-- The statements with every identity replaced by 0. -/
def Stmt.eraseAll : List Stmt → List Stmt
  | [] => []
  | s :: rest => s.erase :: Stmt.eraseAll rest

/-- The function with every identity replaced by 0. -/
def FunctionDecl.erase : FunctionDecl → FunctionDecl
  | ⟨name, parameters, body⟩ => ⟨name, parameters, Stmt.eraseAll body⟩

/-- The functions with every identity replaced by 0. -/
def FunctionDecl.eraseAll : List FunctionDecl → List FunctionDecl
  | [] => []
  | d :: rest => d.erase :: FunctionDecl.eraseAll rest

end

theorem Expr.length_eraseAll (es : List Expr) : (Expr.eraseAll es).length = es.length := by
  induction es with
  | nil => rfl
  | cons e rest ih => simp [Expr.eraseAll, ih]

theorem Stmt.eraseAll_eq_map (statements : List Stmt) :
    Stmt.eraseAll statements = statements.map Stmt.erase := by
  induction statements with
  | nil => rfl
  | cons s rest ih => rw [Stmt.eraseAll, List.map_cons, ih]

/-- A program without identities in two parts comes from one in two parts. -/
theorem Stmt.eraseAll_eq_append {program xs ys : List Stmt}
    (h : Stmt.eraseAll program = xs ++ ys) :
    ∃ above below, program = above ++ below ∧ Stmt.eraseAll above = xs ∧
      Stmt.eraseAll below = ys := by
  rw [Stmt.eraseAll_eq_map] at h
  obtain ⟨above, below, rfl, rfl, rfl⟩ := List.map_eq_append_iff.mp h
  exact ⟨above, below, rfl, Stmt.eraseAll_eq_map above, Stmt.eraseAll_eq_map below⟩

end Lox
