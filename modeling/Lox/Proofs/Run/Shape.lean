import Lox.Proofs.Run.Steady
import Lox.Proofs.Run.Trace

/-!
# Tasks of well-shaped trees

A task about well-shaped trees asks for such tasks only, and the functions that it declares have
bodies of the same shape. So the code that a run comes to is well-shaped if it begins so.
-/

namespace Lox

/-- The shape of a function's parameters and body. -/
def FunctionDecl.Shaped (property : Token → Prop) (declaration : FunctionDecl) : Prop :=
  Token.NameAll property declaration.parameters ∧ Stmt.FormedAll property declaration.body

namespace Run

variable {property : Token → Prop}

/-- The trees of a task are well-shaped, and their tokens have the property. -/
def Task.Shaped (property : Token → Prop) : Task → Prop
  | evaluate expression => expression.Formed property
  | evaluateAll expressions => Expr.FormedAll property expressions
  | execute statement => statement.Formed property
  | executeAll statements => Stmt.FormedAll property statements

theorem Task.formed_iff {task : Task} : task.Formed ↔ task.Shaped Token.Spelled := by
  cases task <;> rfl

/-! ## What is inside a task -/

theorem expressionParts_shaped {e : Expr} (h : e.Formed property) {inner : Task}
    (hpart : inner ∈ expressionParts e) : inner.Shaped property := by
  cases e with
  | literal id value | var id name | super_ id keyword method | this_ id keyword =>
      simp [expressionParts] at hpart
  | grouping id operand =>
      obtain rfl : inner = .evaluate operand := by simpa [expressionParts] using hpart
      exact h
  | unary id operator operand | assign id operator operand =>
      obtain rfl : inner = .evaluate operand := by simpa [expressionParts] using hpart
      exact h.2
  | get id operand name =>
      obtain rfl : inner = .evaluate operand := by simpa [expressionParts] using hpart
      exact h.1
  | binary id first operator second | logical id first operator second
  | set id first operator second =>
      simp only [expressionParts, List.mem_cons, List.not_mem_nil, or_false] at hpart
      rcases hpart with rfl | rfl
      · exact h.1
      · exact h.2.2
  | call id callee paren arguments =>
      simp only [expressionParts, List.mem_cons, List.not_mem_nil, or_false] at hpart
      rcases hpart with rfl | rfl
      · exact h.1
      · exact h.2

theorem optionalPart_shaped {value : Option Expr} (h : Expr.FormedOpt property value)
    {inner : Task} (hpart : inner ∈ value.toList.map Task.evaluate) : inner.Shaped property := by
  cases value with
  | none => simp at hpart
  | some e =>
      obtain rfl : inner = .evaluate e := by simpa using hpart
      exact h

theorem statementParts_shaped {s : Stmt} (h : s.Formed property) {inner : Task}
    (hpart : inner ∈ statementParts s) : inner.Shaped property := by
  cases s with
  | expression value | print value =>
      obtain rfl : inner = .evaluate value := by simpa [statementParts] using hpart
      exact h
  | var name value | return_ name value => exact optionalPart_shaped h.2 hpart
  | class_ name superclass methods => exact optionalPart_shaped h.2.1.formed hpart
  | block body =>
      obtain rfl : inner = .executeAll body := by simpa [statementParts] using hpart
      exact h
  | function declaration => simp [statementParts] at hpart
  | ifThen condition thenBranch =>
      simp only [statementParts, List.mem_cons, List.not_mem_nil, or_false] at hpart
      rcases hpart with rfl | rfl
      · exact h.1
      · exact h.2.2
  | ifElse condition thenBranch elseBranch =>
      simp only [statementParts, List.mem_cons, List.not_mem_nil, or_false] at hpart
      rcases hpart with rfl | rfl | rfl
      · exact h.1
      · exact h.2.1.2
      · exact h.2.2.2
  | while_ condition body =>
      simp only [statementParts, List.mem_cons, List.not_mem_nil, or_false] at hpart
      rcases hpart with rfl | rfl | rfl
      · exact h.1
      · exact h.2.2
      · exact h

theorem Task.Shaped.part {task inner : Task} (h : task.Shaped property)
    (hpart : inner ∈ task.parts) : inner.Shaped property := by
  cases task with
  | evaluate e => exact expressionParts_shaped h hpart
  | execute s => exact statementParts_shaped h hpart
  | evaluateAll es =>
      cases es with
      | nil => simp [Task.parts] at hpart
      | cons e rest =>
          simp only [Task.parts, List.mem_cons, List.not_mem_nil, or_false] at hpart
          rcases hpart with rfl | rfl
          · exact h.1
          · exact h.2
  | executeAll statements =>
      cases statements with
      | nil => simp [Task.parts] at hpart
      | cons s rest =>
          simp only [Task.parts, List.mem_cons, List.not_mem_nil, or_false] at hpart
          rcases hpart with rfl | rfl
          · exact h.1
          · exact h.2

theorem shaped_of_formed {declaration : FunctionDecl}
    (h : declaration.Formed property) : declaration.Shaped property := by
  obtain ⟨name, parameters, body⟩ := declaration
  exact h.2

theorem shaped_of_mem {methods : List FunctionDecl} {method : FunctionDecl}
    (h : FunctionDecl.FormedAll property methods) (hmem : method ∈ methods) :
    method.Shaped property := by
  induction methods with
  | nil => cases hmem
  | cons first rest ih =>
      rcases List.mem_cons.mp hmem with rfl | hmem
      · exact shaped_of_formed h.1
      · exact ih h.2 hmem

/-- The functions that a task declares have the shape of those in it. -/
theorem Task.Shaped.declaration {task : Task} (h : task.Shaped property)
    {made : FunctionDecl} (hmade : made ∈ task.declarations) : made.Shaped property := by
  cases task with
  | execute s =>
      cases s with
      | function declaration =>
          obtain rfl : made = declaration := by simpa [Task.declarations] using hmade
          exact shaped_of_formed h
      | class_ name superclass methods => exact shaped_of_mem h.2.2 hmade
      | _ => simp [Task.declarations] at hmade
  | _ => simp [Task.declarations] at hmade

/-- Well-shaped code whose tokens have the property. -/
def Code.shaped (property : Token → Prop) : Code where
  task := Task.Shaped property
  name _ := True
  declaration := FunctionDecl.Shaped property
  part h hpart := h.part hpart
  names _ _ _ := True.intro
  declarations h _ hmade := h.declaration hmade
  body h := h.2
  parameters _ _ _ := True.intro
  empty := ⟨fun _ hmem => (List.not_mem_nil hmem).elim, True.intro⟩

end Run

end Lox
