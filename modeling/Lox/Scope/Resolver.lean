import Lox.Syntax.Basic
import Lox.Table
import Std.Data.TreeMap

/-!
# Scopes of names

Before a program runs, every use of a name is matched with the innermost scope that declares it.
The distance table holds, for each use that is matched with a local scope, how many scopes lie
between; a use that it does not hold is of a global name. On the way the static rules are checked.
-/

namespace Lox.Scope

/-- For each expression that uses a local name, how many scopes out the name is declared. -/
abbrev Distances := Std.TreeMap NodeId Nat

/-- A static rule that a program breaks. -/
inductive ScopeFault where
  | alreadyDeclared
  | readInInitializer
  | returnOutsideFunction
  | valueFromInitializer
  | thisOutsideClass
  | superOutsideClass
  | superWithoutSuperclass
  | inheritsFromItself
  deriving DecidableEq, Repr

/-- The fault in words. -/
def ScopeFault.message : ScopeFault → String
  | alreadyDeclared => "Variable with this name already declared in this scope."
  | readInInitializer => "Cannot read local variable in its own initializer."
  | returnOutsideFunction => "Cannot return from top-level code."
  | valueFromInitializer => "Cannot return a value from an initializer."
  | thisOutsideClass => "Cannot use 'this' outside of a class."
  | superOutsideClass => "Cannot use 'super' outside of a class."
  | superWithoutSuperclass => "Cannot use 'super' in a class with no superclass."
  | inheritsFromItself => "A class cannot inherit from itself."

/-- A fault and the token that it points at. -/
structure ScopeError where
  fault : ScopeFault
  token : Token

/-- Whether a name of a scope can be read yet. -/
inductive Progress where
  | declared
  | defined
  deriving DecidableEq, Repr

/-- The kind of function whose body is being read. -/
inductive FunctionKind where
  | none
  | function
  | method
  | initializer
  deriving DecidableEq, Repr

/-- The kind of class whose body is being read. -/
inductive ClassKind where
  | none
  | base
  | derived
  deriving DecidableEq, Repr

/-- What is known at a place of the program: the scopes around it, the innermost first, the
distances and errors found so far, and the kinds of function and class around it. -/
structure State where
  scopes : List (Table Progress)
  distances : Distances
  errors : List ScopeError
  function : FunctionKind
  class_ : ClassKind

/-- The state before a program. -/
def State.start : State := ⟨[], ∅, [], .none, .none⟩

/-- A pass over a part of the program. -/
abbrev Pass := StateM State Unit

/-! ## Scopes -/

/-- Notes a broken rule. -/
def note (fault : ScopeFault) (token : Token) : Pass :=
  modify fun state => { state with errors := state.errors ++ [⟨fault, token⟩] }

/-- Opens a scope. -/
def openScope : Pass :=
  modify fun state => { state with scopes := .empty :: state.scopes }

/-- Closes the innermost scope. -/
def closeScope : Pass :=
  modify fun state => { state with scopes := state.scopes.tail }

/-- Enters a name into the innermost scope; the global scope keeps no names. -/
def enter (name : String) (progress : Progress) : Pass :=
  modify fun state =>
    match state.scopes with
    | [] => state
    | scope :: outer => { state with scopes := scope.insert name progress :: outer }

/-- What the innermost scope knows of a name. -/
def known (state : State) (name : String) : Option Progress :=
  state.scopes.head?.bind (·.get? name)

/-- Declares a name, which the innermost scope must not have declared already. -/
def declare (name : Token) : Pass := do
  let before := known (← get) name.lexeme
  enter name.lexeme .declared
  if before.isSome then note .alreadyDeclared name

/-- Makes a declared name readable. -/
def define (name : Token) : Pass :=
  enter name.lexeme .defined

/-- The number of scopes between the innermost one and the first that declares the name. -/
def distance? (name : String) (scopes : List (Table Progress)) : Option Nat :=
  scopes.findIdx? (·.contains name)

/-- Records the distance of a use, unless the name is global. -/
def record (node : NodeId) (name : Token) : Pass :=
  modify fun state =>
    match distance? name.lexeme state.scopes with
    | some distance => { state with distances := state.distances.insert node distance }
    | none => state

/-! ## Expressions -/

mutual

/-- Matches the names in an expression. The value of an assignment comes before its target, and
the value stored in a property before the object. -/
def resolveExpr : Expr → Pass
  | .literal _ _ => return
  | .grouping _ inner => resolveExpr inner
  | .unary _ _ operand => resolveExpr operand
  | .binary _ left _ right | .logical _ left _ right => do
      resolveExpr left
      resolveExpr right
  | .var id name => do
      if known (← get) name.lexeme = some .declared then note .readInInitializer name
      record id name
  | .assign id name value => do
      resolveExpr value
      record id name
  | .call _ callee _ arguments => do
      resolveExpr callee
      resolveExprs arguments
  | .get _ object _ => resolveExpr object
  | .set _ object _ value => do
      resolveExpr value
      resolveExpr object
  | .super_ id keyword _ => do
      match (← get).class_ with
      | .none => note .superOutsideClass keyword
      | .base => note .superWithoutSuperclass keyword
      | .derived => record id keyword
  | .this_ id keyword => do
      match (← get).class_ with
      | .none => note .thisOutsideClass keyword
      | .base | .derived => record id keyword

/-- Matches the names in expressions, one after the other. -/
def resolveExprs : List Expr → Pass
  | [] => return
  | e :: rest => do
      resolveExpr e
      resolveExprs rest

end

/-- Matches the names in an expression that may be missing. -/
def resolveExprOpt : Option Expr → Pass
  | none => return
  | some e => resolveExpr e

/-! ## Statements -/

/-- Declares and defines each parameter. -/
def resolveParameters : List Token → Pass
  | [] => return
  | name :: rest => do
      declare name
      define name
      resolveParameters rest

/-- Runs a pass inside a function of a kind, in a scope that holds the parameters. -/
@[inline] def inFunction (kind : FunctionKind) (parameters : List Token) (body : Pass) : Pass := do
  let outer := (← get).function
  modify fun state => { state with function := kind }
  openScope
  resolveParameters parameters
  body
  closeScope
  modify fun state => { state with function := outer }

/-- The kind of a method. -/
def methodKind (method : FunctionDecl) : FunctionKind :=
  if method.isInitializer then .initializer else .method

/-- Checks the superclass of a class, matches its name, and opens the scope that holds `super`. -/
def resolveSuperclass (name : Token) : Option Expr → Pass
  | none => return
  | some superclass => do
      match superclass with
      | .var _ superName =>
          if superName.lexeme = name.lexeme then note .inheritsFromItself superName
      | _ => pure ()
      modify fun state => { state with class_ := .derived }
      resolveExpr superclass
      openScope
      enter "super" .defined

mutual

/-- Matches the names in a statement. -/
def resolveStmt : Stmt → Pass
  | .expression value | .print value => resolveExpr value
  | .var name initializer => do
      declare name
      resolveExprOpt initializer
      define name
  | .block body => do
      openScope
      resolveStmts body
      closeScope
  | .function declaration => do
      declare declaration.name
      define declaration.name
      resolveFunction .function declaration
  | .class_ name superclass methods => do
      let outer := (← get).class_
      modify fun state => { state with class_ := .base }
      declare name
      define name
      resolveSuperclass name superclass
      resolveMethods methods
      if superclass.isSome then closeScope
      modify fun state => { state with class_ := outer }
  | .ifThen condition thenBranch => do
      resolveExpr condition
      resolveStmt thenBranch
  | .ifElse condition thenBranch elseBranch => do
      resolveExpr condition
      resolveStmt thenBranch
      resolveStmt elseBranch
  | .while_ condition body => do
      resolveExpr condition
      resolveStmt body
  | .return_ keyword value => do
      if (← get).function = .none then note .returnOutsideFunction keyword
      if value.isSome ∧ (← get).function = .initializer then note .valueFromInitializer keyword
      resolveExprOpt value

/-- Matches the names in statements, one after the other. -/
def resolveStmts : List Stmt → Pass
  | [] => return
  | s :: rest => do
      resolveStmt s
      resolveStmts rest

/-- Matches the names in a function. -/
def resolveFunction (kind : FunctionKind) : FunctionDecl → Pass
  | ⟨_, parameters, body⟩ => inFunction kind parameters (resolveStmts body)

/-- Matches the names in methods, each in a scope that holds `this`. -/
def resolveMethods : List FunctionDecl → Pass
  | [] => return
  | method :: rest => do
      openScope
      enter "this" .defined
      resolveFunction (methodKind method) method
      closeScope
      resolveMethods rest

end

/-- The distance table of a program and the static rules that it breaks. -/
def resolve (program : List Stmt) : Distances × List ScopeError :=
  let state := (resolveStmts program .start).2
  (state.distances, state.errors)

end Lox.Scope
