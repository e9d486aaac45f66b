import Lox.Scope.Resolver
import Lox.Syntax.Region
import Lox.Syntax.Uses

/-!
# Places and sites

A site is an occurrence of something that the static rules speak of: a use of a name, a
declaration, a `return`, or a class that extends another one. Its place says what surrounds it in
the text. Places are read off the tree alone: nothing here runs the resolver.
-/

namespace Lox.Scope

/-! ## Places -/

/-- A scope as far as the text has been read: its region, the way to it, and the names that are
declared in it so far, the earliest first. -/
structure Frame where
  region : Region
  path : List Nat
  names : List String

/-- A function or method around a place. -/
inductive Enclosing where
  | function (declaration : FunctionDecl)
  | method (declaration : FunctionDecl)

/-- What surrounds a piece of a program: the way to it, and the local scopes, the functions and the
classes around it, innermost first, a class being known by its superclass. In the initializer of a
local variable the variable's name is kept as well. -/
structure Place where
  path : List Nat
  scopes : List Frame
  functions : List Enclosing
  classes : List (Option Expr)
  initializing : Option String

namespace Place

/-- The place of the first statement of a program. -/
def top : Place := ⟨[0], [], [], [], none⟩

/-- The innermost scope with further names; the global scope keeps no names. -/
def declareIn (names : List String) : List Frame → List Frame
  | [] => []
  | frame :: outer => { frame with names := frame.names ++ names } :: outer

/-- The place after declarations in the innermost scope. -/
def declare (place : Place) (names : List String) : Place :=
  { place with scopes := declareIn names place.scopes }

/-- The place one statement or method further on. -/
def next (place : Place) : Place :=
  { place with path := place.path.modifyHead (· + 1) }

/-- The place of a branch. -/
def branch (place : Place) (index : Nat) : Place :=
  { place with path := index :: place.path }

/-- The place inside a region. -/
def enter (place : Place) (region : Region) (names : List String) : Place :=
  { place with path := 0 :: place.path, scopes := ⟨region, place.path, names⟩ :: place.scopes }

/-- The place of an initializer. -/
def initializerOf (place : Place) (name : String) : Place :=
  if place.scopes.isEmpty then place else { place with initializing := some name }

/-- The place inside a function, before its parameters. -/
def enterFunction (place : Place) (form : FunctionDecl → Enclosing) (declaration : FunctionDecl) :
    Place :=
  { place.enter (.function declaration) [] with
    functions := form declaration :: place.functions }

/-- The place inside a class, outside its methods. -/
def enterClass (place : Place) (superclass : Option Expr) : Place :=
  { place with classes := superclass :: place.classes }

/-- The place of the first method of a class. -/
def enterMethods (place : Place) (superclass : Option Expr) (methods : List FunctionDecl) :
    Place :=
  if superclass.isSome then place.enter (.superclass methods) ["super"] else place.branch 0

/-- How many scopes lie between the place and the innermost one that declares the name. -/
def distance? (place : Place) (name : String) : Option Nat :=
  if place.initializing = some name then some 0
  else place.scopes.findIdx? fun frame => decide (name ∈ frame.names)

end Place

end Lox.Scope

namespace Lox

open Scope (Place Enclosing)

/-! ## Sites -/

/-- Something that the static rules speak of. -/
inductive Site where
  | use (use : Use)
  | declaration (name : Token)
  | return_ (keyword : Token) (hasValue : Bool)
  | inheritance (name superName : Token)

/-- The token of a site. -/
def Site.token : Site → Token
  | use u => u.token
  | declaration name => name
  | return_ keyword _ => keyword
  | inheritance _ superName => superName

/-- A site at its place. -/
structure Occurrence where
  place : Place
  site : Site

/-- The names that a statement declares in the scope around it. -/
def Stmt.declares : Stmt → List String
  | .var name _ => [name.lexeme]
  | .function declaration => [declaration.name.lexeme]
  | .class_ name _ _ => [name.lexeme]
  | .ifThen _ thenBranch => thenBranch.declares
  | .ifElse _ thenBranch elseBranch => thenBranch.declares ++ elseBranch.declares
  | .while_ _ body => body.declares
  | .expression _ | .print _ | .block _ | .return_ _ _ => []

/-- The place after a statement. -/
def Scope.Place.after (place : Place) (statement : Stmt) : Place :=
  (place.declare statement.declares).next

/-- The place after statements. -/
def Scope.Place.afterAll (place : Place) : List Stmt → Place
  | [] => place
  | s :: rest => (place.after s).afterAll rest

/-- Statements change the innermost scope at most. -/
structure Scope.Place.Beside (place other : Place) : Prop where
  scopes : other.scopes.tail = place.scopes.tail
  functions : other.functions = place.functions
  classes : other.classes = place.classes
  initializing : other.initializing = place.initializing

theorem Scope.Place.beside_declare (place : Place) (names : List String) :
    place.Beside (place.declare names) := by
  refine ⟨?_, rfl, rfl, rfl⟩
  cases h : place.scopes <;> simp [Scope.Place.declare, h, Scope.Place.declareIn]

theorem Scope.Place.beside_after (place : Place) (s : Stmt) : place.Beside (place.after s) :=
  let h := place.beside_declare s.declares
  ⟨h.scopes, h.functions, h.classes, h.initializing⟩

theorem Scope.Place.beside_afterAll (place : Place) (statements : List Stmt) :
    place.Beside (place.afterAll statements) := by
  induction statements generalizing place with
  | nil => exact ⟨rfl, rfl, rfl, rfl⟩
  | cons s rest ih =>
      have hfirst := place.beside_after s
      have hrest := ih (place.after s)
      exact ⟨hrest.scopes.trans hfirst.scopes, hrest.functions.trans hfirst.functions,
        hrest.classes.trans hfirst.classes, hrest.initializing.trans hfirst.initializing⟩

/-- The sites in an expression, all at one place. -/
def Expr.sites (place : Place) (e : Expr) : List Occurrence :=
  e.uses.map fun u => ⟨place, .use u⟩

/-- The sites in a list of expressions. -/
def Expr.sitesAll (place : Place) (es : List Expr) : List Occurrence :=
  (Expr.usesAll es).map fun u => ⟨place, .use u⟩

/-- The sites in an expression that may be missing. -/
def Expr.sitesOpt (place : Place) (e : Option Expr) : List Occurrence :=
  (Expr.usesOpt e).map fun u => ⟨place, .use u⟩

/-- The declarations of parameters. -/
def parameterSites (place : Place) : List Token → List Occurrence
  | [] => []
  | name :: rest => ⟨place, .declaration name⟩ :: parameterSites (place.declare [name.lexeme]) rest

/-- The site of a class that extends one that is given by its name. -/
def inheritanceSites (place : Place) (name : Token) : Option Expr → List Occurrence
  | some (.var _ superName) => [⟨place, .inheritance name superName⟩]
  | _ => []

mutual

/-- The sites in a statement. -/
def Stmt.sites (place : Place) : Stmt → List Occurrence
  | .expression value | .print value => value.sites place
  | .var name initializer =>
      ⟨place, .declaration name⟩ :: Expr.sitesOpt (place.initializerOf name.lexeme) initializer
  | .block body => Stmt.sitesAll (place.enter (.block body) []) body
  | .function declaration =>
      ⟨place, .declaration declaration.name⟩ ::
        declaration.sites (place.declare [declaration.name.lexeme]) .function
  | .class_ name superclass methods =>
      let inside := (place.declare [name.lexeme]).enterClass superclass
      ⟨place, .declaration name⟩ ::
        (inheritanceSites inside name superclass ++ Expr.sitesOpt inside superclass ++
          FunctionDecl.sitesAll (inside.enterMethods superclass methods) methods)
  | .ifThen condition thenBranch => condition.sites place ++ thenBranch.sites (place.branch 0)
  | .ifElse condition thenBranch elseBranch =>
      condition.sites place ++ thenBranch.sites (place.branch 0) ++
        elseBranch.sites ((place.declare thenBranch.declares).branch 1)
  | .while_ condition body => condition.sites place ++ body.sites (place.branch 0)
  | .return_ keyword value => ⟨place, .return_ keyword value.isSome⟩ :: Expr.sitesOpt place value

/-- The sites in a list of statements. -/
def Stmt.sitesAll (place : Place) : List Stmt → List Occurrence
  | [] => []
  | s :: rest => s.sites place ++ Stmt.sitesAll (place.after s) rest

/-- The sites in a function. Its parameters and its body have one scope. -/
def FunctionDecl.sites (place : Place) (form : FunctionDecl → Enclosing) :
    FunctionDecl → List Occurrence
  | ⟨name, parameters, body⟩ =>
      let inside := place.enterFunction form ⟨name, parameters, body⟩
      parameterSites inside parameters ++
        Stmt.sitesAll (inside.declare (parameters.map Token.lexeme)) body

/-- The sites in methods, each in a scope of its own that holds `this`. -/
def FunctionDecl.sitesAll (place : Place) : List FunctionDecl → List Occurrence
  | [] => []
  | method :: rest =>
      method.sites (place.enter (.receiver method) ["this"]) .method ++
        FunctionDecl.sitesAll place.next rest

end

/-- The sites in a program. -/
def programSites (program : List Stmt) : List Occurrence :=
  Stmt.sitesAll .top program

/-- The identities of the uses among sites. -/
def useNodes (occurrences : List Occurrence) : List NodeId :=
  occurrences.filterMap fun occurrence =>
    match occurrence.site with
    | .use u => some u.node
    | _ => none

end Lox
