import Lox.Proofs.Syntax.Shape
import Lox.Proofs.Token.Spelling

/-!
# The names in a tree

All names that occur in a tree: of variables, parameters, functions, classes, methods and fields.
-/

namespace Lox

mutual

/-- The names in an expression. -/
def Expr.names : Expr → List String
  | .literal _ _ | .this_ _ _ => []
  | .grouping _ inner => inner.names
  | .unary _ _ operand => operand.names
  | .binary _ left _ right | .logical _ left _ right => left.names ++ right.names
  | .var _ name => [name.lexeme]
  | .assign _ name value => name.lexeme :: value.names
  | .call _ callee _ arguments => callee.names ++ Expr.namesAll arguments
  | .get _ object name => object.names ++ [name.lexeme]
  | .set _ object name value => object.names ++ name.lexeme :: value.names
  | .super_ _ _ method => [method.lexeme]

/-- The names in a list of expressions. -/
def Expr.namesAll : List Expr → List String
  | [] => []
  | e :: rest => e.names ++ Expr.namesAll rest

end

/-- The names in an expression that may be missing. -/
def Expr.namesOpt : Option Expr → List String
  | none => []
  | some e => e.names

mutual

/-- The names in a statement. -/
def Stmt.names : Stmt → List String
  | .expression value | .print value => value.names
  | .var name initializer => name.lexeme :: Expr.namesOpt initializer
  | .block body => Stmt.namesAll body
  | .function declaration => declaration.names
  | .class_ name superclass methods =>
      name.lexeme :: (Expr.namesOpt superclass ++ FunctionDecl.namesAll methods)
  | .ifThen condition thenBranch => condition.names ++ thenBranch.names
  | .ifElse condition thenBranch elseBranch =>
      condition.names ++ (thenBranch.names ++ elseBranch.names)
  | .while_ condition body => condition.names ++ body.names
  | .return_ _ value => Expr.namesOpt value

/-- The names in a list of statements. -/
def Stmt.namesAll : List Stmt → List String
  | [] => []
  | s :: rest => s.names ++ Stmt.namesAll rest

/-- The names in a function: its own, those of its parameters and those in its body. -/
def FunctionDecl.names : FunctionDecl → List String
  | ⟨name, parameters, body⟩ =>
      name.lexeme :: (parameters.map Token.lexeme ++ Stmt.namesAll body)

/-- The names in methods. -/
def FunctionDecl.namesAll : List FunctionDecl → List String
  | [] => []
  | d :: rest => d.names ++ FunctionDecl.namesAll rest

end

/-! ## A name that is new -/

/-- The name is no keyword and occurs nowhere in the program. -/
structure NewName (program : List Stmt) (name : String) : Prop where
  keyword : ∀ keyword : Keyword, name ≠ keyword.spelling
  absent : name ∉ Stmt.namesAll program

/-- A token of a program in which the name is new. -/
structure Token.Nameable (new : String) (token : Token) : Prop where
  spelled : token.Spelled
  new : token.lexeme ≠ new

section

variable {new : String}

theorem Token.Is.nameable {token : Token} {category : Category}
    (h : token.Is Token.Spelled category) (hnew : new ≠ token.lexeme) :
    token.Is (Token.Nameable new) category :=
  ⟨h.category, h.property, hnew.symm⟩

theorem Token.Is.nameable_keyword {token : Token} {keyword : Keyword}
    (h : token.Is Token.Spelled (.keyword keyword))
    (hnew : ∀ keyword : Keyword, new ≠ keyword.spelling) :
    token.Is (Token.Nameable new) (.keyword keyword) := by
  refine h.nameable ?_
  rw [h.property.keyword h.category]
  exact hnew keyword

mutual

theorem Expr.Formed.nameable {e : Expr} (h : e.Formed Token.Spelled) (habsent : new ∉ e.names)
    (hnew : ∀ keyword : Keyword, new ≠ keyword.spelling) : e.Formed (Token.Nameable new) := by
  cases e with
  | literal id value => trivial
  | grouping id inner =>
      have hinner : inner.Formed Token.Spelled := h
      exact hinner.nameable habsent hnew
  | unary id operator operand => exact ⟨h.1, h.2.nameable habsent hnew⟩
  | binary id left operator right =>
      rw [Expr.names, List.mem_append, not_or] at habsent
      exact ⟨h.1.nameable habsent.1 hnew, h.2.1, h.2.2.nameable habsent.2 hnew⟩
  | logical id left operator right =>
      rw [Expr.names, List.mem_append, not_or] at habsent
      exact ⟨h.1.nameable habsent.1 hnew, h.2.1, h.2.2.nameable habsent.2 hnew⟩
  | var id name =>
      rw [Expr.names, List.mem_singleton] at habsent
      exact Token.Is.nameable h habsent
  | assign id name value =>
      rw [Expr.names, List.mem_cons, not_or] at habsent
      exact ⟨h.1.nameable habsent.1, h.2.nameable habsent.2 hnew⟩
  | call id callee paren arguments =>
      rw [Expr.names, List.mem_append, not_or] at habsent
      exact ⟨h.1.nameable habsent.1 hnew, h.2.nameable habsent.2 hnew⟩
  | get id object name =>
      rw [Expr.names, List.mem_append, List.mem_singleton, not_or] at habsent
      exact ⟨h.1.nameable habsent.1 hnew, h.2.nameable habsent.2⟩
  | set id object name value =>
      rw [Expr.names, List.mem_append, List.mem_cons, not_or, not_or] at habsent
      exact ⟨h.1.nameable habsent.1 hnew, h.2.1.nameable habsent.2.1,
        h.2.2.nameable habsent.2.2 hnew⟩
  | super_ id keyword method =>
      rw [Expr.names, List.mem_singleton] at habsent
      exact ⟨h.1.nameable_keyword hnew, h.2.nameable habsent⟩
  | this_ id keyword => exact Token.Is.nameable_keyword h hnew

theorem Expr.FormedAll.nameable {es : List Expr} (h : Expr.FormedAll Token.Spelled es)
    (habsent : new ∉ Expr.namesAll es) (hnew : ∀ keyword : Keyword, new ≠ keyword.spelling) :
    Expr.FormedAll (Token.Nameable new) es := by
  cases es with
  | nil => trivial
  | cons e rest =>
      rw [Expr.namesAll, List.mem_append, not_or] at habsent
      exact ⟨h.1.nameable habsent.1 hnew, h.2.nameable habsent.2 hnew⟩

end

theorem Expr.FormedOpt.nameable {e : Option Expr} (h : Expr.FormedOpt Token.Spelled e)
    (habsent : new ∉ Expr.namesOpt e) (hnew : ∀ keyword : Keyword, new ≠ keyword.spelling) :
    Expr.FormedOpt (Token.Nameable new) e := by
  cases e with
  | none => trivial
  | some e => exact Expr.Formed.nameable h habsent hnew

theorem Expr.NameOpt.nameable {e : Option Expr} (h : Expr.NameOpt Token.Spelled e)
    (habsent : new ∉ Expr.namesOpt e) : Expr.NameOpt (Token.Nameable new) e := by
  cases e with
  | none => trivial
  | some e =>
      obtain ⟨id, name, rfl, hname⟩ := h
      rw [Expr.namesOpt, Expr.names, List.mem_singleton] at habsent
      exact ⟨id, name, rfl, hname.nameable habsent⟩

theorem Token.NameAll.nameable {names : List Token} (h : Token.NameAll Token.Spelled names)
    (habsent : new ∉ names.map Token.lexeme) : Token.NameAll (Token.Nameable new) names :=
  fun name hname => (h name hname).nameable fun heq =>
    habsent (heq ▸ List.mem_map_of_mem hname)

mutual

theorem Stmt.Formed.nameable {s : Stmt} (h : s.Formed Token.Spelled) (habsent : new ∉ s.names)
    (hnew : ∀ keyword : Keyword, new ≠ keyword.spelling) : s.Formed (Token.Nameable new) := by
  cases s with
  | expression value => exact Expr.Formed.nameable h habsent hnew
  | print value => exact Expr.Formed.nameable h habsent hnew
  | var name initializer =>
      rw [Stmt.names, List.mem_cons, not_or] at habsent
      exact ⟨h.1.nameable habsent.1, h.2.nameable habsent.2 hnew⟩
  | block body =>
      have hbody : Stmt.FormedAll Token.Spelled body := h
      exact hbody.nameable habsent hnew
  | function declaration =>
      have hdeclaration : declaration.Formed Token.Spelled := h
      exact hdeclaration.nameable habsent hnew
  | class_ name superclass methods =>
      rw [Stmt.names, List.mem_cons, List.mem_append, not_or, not_or] at habsent
      exact ⟨h.1.nameable habsent.1, h.2.1.nameable habsent.2.1,
        h.2.2.nameable habsent.2.2 hnew⟩
  | ifThen condition thenBranch =>
      rw [Stmt.names, List.mem_append, not_or] at habsent
      exact ⟨h.1.nameable habsent.1 hnew, h.2.1, h.2.2.nameable habsent.2 hnew⟩
  | ifElse condition thenBranch elseBranch =>
      rw [Stmt.names, List.mem_append, List.mem_append, not_or, not_or] at habsent
      obtain ⟨hcondition, ⟨hplain, hthen⟩, hplain', helse⟩ := h
      exact ⟨hcondition.nameable habsent.1 hnew, ⟨hplain, hthen.nameable habsent.2.1 hnew⟩,
        hplain', helse.nameable habsent.2.2 hnew⟩
  | while_ condition body =>
      rw [Stmt.names, List.mem_append, not_or] at habsent
      exact ⟨h.1.nameable habsent.1 hnew, h.2.1, h.2.2.nameable habsent.2 hnew⟩
  | return_ keyword value =>
      exact ⟨h.1.nameable_keyword hnew, h.2.nameable habsent hnew⟩

theorem Stmt.FormedAll.nameable {statements : List Stmt}
    (h : Stmt.FormedAll Token.Spelled statements) (habsent : new ∉ Stmt.namesAll statements)
    (hnew : ∀ keyword : Keyword, new ≠ keyword.spelling) :
    Stmt.FormedAll (Token.Nameable new) statements := by
  cases statements with
  | nil => trivial
  | cons s rest =>
      rw [Stmt.namesAll, List.mem_append, not_or] at habsent
      exact ⟨h.1.nameable habsent.1 hnew, h.2.nameable habsent.2 hnew⟩

theorem FunctionDecl.Formed.nameable {declaration : FunctionDecl}
    (h : declaration.Formed Token.Spelled) (habsent : new ∉ declaration.names)
    (hnew : ∀ keyword : Keyword, new ≠ keyword.spelling) :
    declaration.Formed (Token.Nameable new) := by
  cases declaration with
  | mk name parameters body =>
      rw [FunctionDecl.names, List.mem_cons, List.mem_append, not_or, not_or] at habsent
      exact ⟨h.1.nameable habsent.1, h.2.1.nameable habsent.2.1,
        h.2.2.nameable habsent.2.2 hnew⟩

theorem FunctionDecl.FormedAll.nameable {methods : List FunctionDecl}
    (h : FunctionDecl.FormedAll Token.Spelled methods)
    (habsent : new ∉ FunctionDecl.namesAll methods)
    (hnew : ∀ keyword : Keyword, new ≠ keyword.spelling) :
    FunctionDecl.FormedAll (Token.Nameable new) methods := by
  cases methods with
  | nil => trivial
  | cons method rest =>
      rw [FunctionDecl.namesAll, List.mem_append, not_or] at habsent
      exact ⟨h.1.nameable habsent.1 hnew, h.2.nameable habsent.2 hnew⟩

end

end

theorem NewName.nameable {program : List Stmt} {name : String} (h : NewName program name)
    (hformed : Stmt.FormedAll Token.Spelled program) :
    Stmt.FormedAll (Token.Nameable name) program :=
  hformed.nameable h.absent h.keyword

end Lox
