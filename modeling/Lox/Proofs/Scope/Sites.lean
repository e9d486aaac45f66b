import Lox.Proofs.Scope.Pass
import Lox.Proofs.Syntax.Nodes

/-!
# The uses among the sites

The sites of a piece of program hold its uses, in the order in which a reader meets them.
-/

namespace Lox

open Scope (Place Enclosing useNodes_append)

@[simp] theorem useNodes_nil : useNodes [] = [] := rfl

@[simp] theorem useNodes_use (place : Place) (u : Use) (rest : List Occurrence) :
    useNodes (⟨place, .use u⟩ :: rest) = u.node :: useNodes rest := rfl

@[simp] theorem useNodes_declaration (place : Place) (name : Token) (rest : List Occurrence) :
    useNodes (⟨place, .declaration name⟩ :: rest) = useNodes rest := rfl

@[simp] theorem useNodes_return (place : Place) (keyword : Token) (hasValue : Bool)
    (rest : List Occurrence) :
    useNodes (⟨place, .return_ keyword hasValue⟩ :: rest) = useNodes rest := rfl

theorem exists_use_of_mem_useNodes {occurrences : List Occurrence} {id : NodeId}
    (h : id ∈ useNodes occurrences) :
    ∃ place u, ⟨place, .use u⟩ ∈ occurrences ∧ u.node = id := by
  obtain ⟨⟨place, site⟩, hmem, hid⟩ := List.mem_filterMap.mp h
  cases site with
  | use u => exact ⟨place, u, hmem, Option.some.inj hid⟩
  | _ => cases hid

theorem useNodes_uses (place : Place) (uses : List Use) :
    useNodes (uses.map fun u => ⟨place, .use u⟩) = uses.map Use.node := by
  induction uses with
  | nil => rfl
  | cons u rest ih => simp [ih]

@[simp] theorem Expr.useNodes_sites (place : Place) (e : Expr) :
    useNodes (e.sites place) = e.uses.map Use.node :=
  useNodes_uses place e.uses

@[simp] theorem Expr.useNodes_sitesOpt (place : Place) (e : Option Expr) :
    useNodes (Expr.sitesOpt place e) = (Expr.usesOpt e).map Use.node :=
  useNodes_uses place (Expr.usesOpt e)

@[simp] theorem useNodes_parameterSites (place : Place) (parameters : List Token) :
    useNodes (parameterSites place parameters) = [] := by
  induction parameters generalizing place with
  | nil => rfl
  | cons name rest ih => simp [parameterSites, ih]

@[simp] theorem useNodes_inheritanceSites (place : Place) (name : Token)
    (superclass : Option Expr) : useNodes (inheritanceSites place name superclass) = [] := by
  cases superclass with
  | none => rfl
  | some e => cases e <;> rfl

mutual

theorem Stmt.useNodes_sites (place : Place) (s : Stmt) :
    useNodes (s.sites place) = s.uses.map Use.node := by
  cases s with
  | expression value => simp [Stmt.sites, Stmt.uses]
  | print value => simp [Stmt.sites, Stmt.uses]
  | var name initializer => simp [Stmt.sites, Stmt.uses]
  | block body => simp [Stmt.sites, Stmt.uses, Stmt.useNodes_sitesAll _ body]
  | function declaration =>
      simp [Stmt.sites, Stmt.uses, FunctionDecl.useNodes_sites _ _ declaration]
  | class_ name superclass methods =>
      simp [Stmt.sites, Stmt.uses, useNodes_append, FunctionDecl.useNodes_sitesAll _ methods]
  | ifThen condition thenBranch =>
      simp [Stmt.sites, Stmt.uses, useNodes_append, Stmt.useNodes_sites _ thenBranch]
  | ifElse condition thenBranch elseBranch =>
      simp [Stmt.sites, Stmt.uses, useNodes_append, Stmt.useNodes_sites _ thenBranch,
        Stmt.useNodes_sites _ elseBranch]
  | while_ condition body =>
      simp [Stmt.sites, Stmt.uses, useNodes_append, Stmt.useNodes_sites _ body]
  | return_ keyword value => simp [Stmt.sites, Stmt.uses]

theorem Stmt.useNodes_sitesAll (place : Place) (statements : List Stmt) :
    useNodes (Stmt.sitesAll place statements) = (Stmt.usesAll statements).map Use.node := by
  cases statements with
  | nil => rfl
  | cons s rest =>
      simp [Stmt.sitesAll, Stmt.usesAll, useNodes_append, Stmt.useNodes_sites _ s,
        Stmt.useNodes_sitesAll _ rest]

theorem FunctionDecl.useNodes_sites (place : Place) (form : FunctionDecl → Enclosing)
    (declaration : FunctionDecl) :
    useNodes (declaration.sites place form) = declaration.uses.map Use.node := by
  cases declaration with
  | mk name parameters body =>
      simp [FunctionDecl.sites, FunctionDecl.uses, useNodes_append, Stmt.useNodes_sitesAll _ body]

theorem FunctionDecl.useNodes_sitesAll (place : Place) (methods : List FunctionDecl) :
    useNodes (FunctionDecl.sitesAll place methods) =
      (FunctionDecl.usesAll methods).map Use.node := by
  cases methods with
  | nil => rfl
  | cons method rest =>
      simp [FunctionDecl.sitesAll, FunctionDecl.usesAll, useNodes_append,
        FunctionDecl.useNodes_sites _ _ method, FunctionDecl.useNodes_sitesAll _ rest]

end

/-- The identities of the uses in a program are those of some of its expressions. -/
theorem useNodes_programSites_subperm (program : List Stmt) :
    (useNodes (programSites program)).Subperm (Stmt.nodesAll program) := by
  rw [programSites, Stmt.useNodes_sitesAll]
  exact Stmt.usesAll_owned program

end Lox
