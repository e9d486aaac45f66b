import Lox.Run.Name
import Lox.Run.Task

/-!
# Executing statements

A statement ends normally or returns a value, which ends every statement around it up to the call.
-/

namespace Lox.Run

/-- The value of an expression that may be missing. -/
@[inline] def evaluateOpt (sub : Runner) : Option Expr → Action Value
  | some value => sub (.evaluate value)
  | none => return .nil

/-- The token that is blamed when a superclass is no class. -/
def superclassToken (name : Token) : Expr → Token
  | .var _ superName => superName
  | _ => name

/-- The class that a superclass expression gives. -/
@[inline] def evaluateSuperclass (sub : Runner) (name : Token) :
    Option Expr → Action (Option ClassId)
  | none => return none
  | some expression => do
      let value : Value ← sub (.evaluate expression)
      match value with
      | .class_ id => return some id
      | _ => fail .superclassNotClass (superclassToken name expression)

/-- The environment of a class's methods: one that binds `super` if there is a superclass. -/
def methodEnvironment (superclass : Option ClassId) (methods : List FunctionDecl) :
    Action EnvironmentId := do
  let place ← here
  match superclass with
  | some id =>
      let inner ← allocate fun heap => heap.child place (some (.superclass methods))
      update fun heap => heap.define inner "super" (.class_ id)
      return inner
  | none => return place

/-- The method table of a class; of two methods with one name the later counts. -/
def methodTable (place : EnvironmentId) (methods : List FunctionDecl) : Table Closure :=
  methods.foldl
    (fun table method => table.insert method.name.lexeme ⟨method, place, method.isInitializer⟩)
    .empty

/-- A class declaration. The name is bound before the superclass is evaluated, so that methods can
refer to the class, and gets its class at the end. -/
@[inline] def executeClass (sub : Runner) (name : Token) (superclass : Option Expr)
    (methods : List FunctionDecl) : Action Unit := do
  define name.lexeme .nil
  let superclass ← evaluateSuperclass sub name superclass
  let place ← methodEnvironment superclass methods
  let id ← allocate fun heap =>
    heap.addClass ⟨name.lexeme, superclass, methodTable place methods⟩
  assign (← here) name (.class_ id)

/-- A loop turn: the condition, then the body, then the loop again. -/
@[inline] def executeWhile (sub : Runner) (condition : Expr) (body : Stmt) : Action Flow := do
  let value : Value ← sub (.evaluate condition)
  if value.isTruthy then
    let flow : Flow ← sub (.execute body)
    match flow with
    | .normal => sub (.execute (.while_ condition body))
    | .returned value => return .returned value
  else
    return .normal

/-- Executes a statement. -/
@[inline] def execute (sub : Runner) : Stmt → Action Flow
  | .expression value => do
      let _ : Value ← sub (.evaluate value)
      return .normal
  | .print value => do
      let value : Value ← sub (.evaluate value)
      write ((← heap).text value ++ "\n")
      return .normal
  | .var name initializer => do
      define name.lexeme (← evaluateOpt sub initializer)
      return .normal
  | .block body => do
      let outer ← here
      let place ← allocate fun heap => heap.child outer (some (.block body))
      within place (sub (.executeAll body))
  | .function declaration => do
      let place ← here
      let id ← allocate fun heap => heap.addFunction ⟨declaration, place, false⟩
      define declaration.name.lexeme (.function id)
      return .normal
  | .class_ name superclass methods => do
      executeClass sub name superclass methods
      return .normal
  | .ifThen condition thenBranch => do
      let value : Value ← sub (.evaluate condition)
      if value.isTruthy then sub (.execute thenBranch) else return .normal
  | .ifElse condition thenBranch elseBranch => do
      let value : Value ← sub (.evaluate condition)
      if value.isTruthy then sub (.execute thenBranch) else sub (.execute elseBranch)
  | .while_ condition body => executeWhile sub condition body
  | .return_ _ value => do
      return .returned (← evaluateOpt sub value)

end Lox.Run
