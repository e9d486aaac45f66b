import Lox.Proofs.Scope.Place

/-!
# The shape of trees

What every tree that was read from a text has in common, beyond what its type says: names are
identifiers, operators are those of the language, a superclass is given by its name, and nothing
is declared in a branch or as the body of a loop. All its tokens share a property with those that
they were read from.
-/

namespace Lox

/-- A token of a category that has a property. -/
structure Token.Is (property : Token → Prop) (category : Category) (token : Token) : Prop where
  category : token.category = category
  property : property token

/-- The operators before an operand. -/
def unaryOperators : List Category :=
  [.symbol .bang, .symbol .minus]

/-- The operators between operands that decide whether the second one is evaluated. -/
def logicalOperators : List Category :=
  [.keyword .and_, .keyword .or_]

/-- The operators between operands that are both evaluated. -/
def binaryOperators : List Category :=
  [.symbol .bangEqual, .symbol .equalEqual, .symbol .greater, .symbol .greaterEqual, .symbol .less,
    .symbol .lessEqual, .symbol .minus, .symbol .plus, .symbol .slash, .symbol .star]

/-- Whether a statement declares a name. -/
def Stmt.isDeclaration : Stmt → Bool
  | .var _ _ | .function _ | .class_ _ _ _ => true
  | _ => false

section

variable (property : Token → Prop)

mutual

/-- The shape of an expression. -/
def Expr.Formed : Expr → Prop
  | .literal _ _ => True
  | .grouping _ inner => inner.Formed
  | .unary _ operator operand => operator.category ∈ unaryOperators ∧ operand.Formed
  | .binary _ left operator right =>
      left.Formed ∧ operator.category ∈ binaryOperators ∧ right.Formed
  | .logical _ left operator right =>
      left.Formed ∧ operator.category ∈ logicalOperators ∧ right.Formed
  | .var _ name => name.Is property .identifier
  | .assign _ name value => name.Is property .identifier ∧ value.Formed
  | .call _ callee _ arguments => callee.Formed ∧ Expr.FormedAll arguments
  | .get _ object name => object.Formed ∧ name.Is property .identifier
  | .set _ object name value => object.Formed ∧ name.Is property .identifier ∧ value.Formed
  | .super_ _ keyword method =>
      keyword.Is property (.keyword .super_) ∧ method.Is property .identifier
  | .this_ _ keyword => keyword.Is property (.keyword .this_)

/-- The shape of a list of expressions. -/
def Expr.FormedAll : List Expr → Prop
  | [] => True
  | e :: rest => e.Formed ∧ Expr.FormedAll rest

end

/-- The shape of an expression that may be missing. -/
def Expr.FormedOpt : Option Expr → Prop
  | none => True
  | some e => e.Formed property

/-- The shape of a superclass. -/
def Expr.NameOpt : Option Expr → Prop
  | none => True
  | some e => ∃ id name, e = .var id name ∧ name.Is property .identifier

/-- The shape of parameters. -/
def Token.NameAll (names : List Token) : Prop :=
  ∀ name ∈ names, name.Is property .identifier

mutual

/-- The shape of a statement. -/
def Stmt.Formed : Stmt → Prop
  | .expression value | .print value => value.Formed property
  | .var name initializer => name.Is property .identifier ∧ Expr.FormedOpt property initializer
  | .block body => Stmt.FormedAll body
  | .function declaration => declaration.Formed
  | .class_ name superclass methods =>
      name.Is property .identifier ∧ Expr.NameOpt property superclass ∧
        FunctionDecl.FormedAll methods
  | .ifThen condition thenBranch =>
      condition.Formed property ∧ thenBranch.isDeclaration = false ∧ thenBranch.Formed
  | .ifElse condition thenBranch elseBranch =>
      condition.Formed property ∧ (thenBranch.isDeclaration = false ∧ thenBranch.Formed) ∧
        elseBranch.isDeclaration = false ∧ elseBranch.Formed
  | .while_ condition body =>
      condition.Formed property ∧ body.isDeclaration = false ∧ body.Formed
  | .return_ keyword value =>
      keyword.Is property (.keyword .return_) ∧ Expr.FormedOpt property value

/-- The shape of a list of statements. -/
def Stmt.FormedAll : List Stmt → Prop
  | [] => True
  | s :: rest => s.Formed ∧ Stmt.FormedAll rest

/-- The shape of a function. -/
def FunctionDecl.Formed : FunctionDecl → Prop
  | ⟨name, parameters, body⟩ =>
      name.Is property .identifier ∧ Token.NameAll property parameters ∧ Stmt.FormedAll body

/-- The shape of methods. -/
def FunctionDecl.FormedAll : List FunctionDecl → Prop
  | [] => True
  | d :: rest => d.Formed ∧ FunctionDecl.FormedAll rest

end

end

/-! ## Consequences -/

section

variable {property : Token → Prop}

theorem Stmt.formedAll_append (xs ys : List Stmt) :
    Stmt.FormedAll property (xs ++ ys) ↔
      Stmt.FormedAll property xs ∧ Stmt.FormedAll property ys := by
  induction xs with
  | nil => simp [Stmt.FormedAll]
  | cons s rest ih => simp [Stmt.FormedAll, ih, and_assoc]

theorem Expr.NameOpt.formed {superclass : Option Expr} (h : Expr.NameOpt property superclass) :
    Expr.FormedOpt property superclass := by
  cases superclass with
  | none => trivial
  | some e =>
      obtain ⟨id, name, rfl, hname⟩ := h
      exact hname

/-- A statement that is no declaration declares nothing, nor do the branches inside it. -/
theorem Stmt.Formed.declares_eq_nil {s : Stmt} (h : s.Formed property)
    (hplain : s.isDeclaration = false) : s.declares = [] := by
  cases s with
  | expression value => rfl
  | print value => rfl
  | var name initializer => cases hplain
  | block body => rfl
  | function declaration => cases hplain
  | class_ name superclass methods => cases hplain
  | ifThen condition thenBranch =>
      rw [Stmt.Formed] at h
      rw [Stmt.declares, Stmt.Formed.declares_eq_nil h.2.2 h.2.1]
  | ifElse condition thenBranch elseBranch =>
      rw [Stmt.Formed] at h
      rw [Stmt.declares, Stmt.Formed.declares_eq_nil h.2.1.2 h.2.1.1,
        Stmt.Formed.declares_eq_nil h.2.2.2 h.2.2.1, List.append_nil]
  | while_ condition body =>
      rw [Stmt.Formed] at h
      rw [Stmt.declares, Stmt.Formed.declares_eq_nil h.2.2 h.2.1]
  | return_ keyword value => rfl

end

end Lox
