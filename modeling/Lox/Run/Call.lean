import Lox.Run.Task

/-!
# Calls

Functions, classes and what the language provides are called. A call runs the body of a function
in a new environment inside the one that the function closed over, not inside the caller's.
-/

namespace Lox.Run

/-- Binds parameters to arguments; surplus arguments are dropped. -/
def bindParameters (place : EnvironmentId) : List Token → List Value → Heap → Heap
  | parameter :: parameters, argument :: arguments, heap =>
      bindParameters place parameters arguments (heap.define place parameter.lexeme argument)
  | _, _, heap => heap

/-- Calls a function: its body runs in a new environment inside the one that the function closed
over. An initializer gives its instance, whatever its body returns. -/
@[inline] def callClosure (sub : Runner) (closure : Closure) (arguments : List Value) :
    Action Value := do
  let place ← allocate fun heap =>
    heap.child closure.environment (some (.function closure.declaration))
  update (bindParameters place closure.declaration.parameters arguments)
  let flow : Flow ← within place (sub (.executeAll closure.declaration.body))
  if closure.isInitializer then
    return ((← heap).getAt? closure.environment 0 "this").getD .nil
  else
    match flow with
    | .returned value => return value
    | .normal => return .nil

/-- Makes an instance of a class and initializes it. -/
@[inline] def construct (sub : Runner) (id : ClassId) (arguments : List Value) : Action Value := do
  let receiver ← allocate fun heap => heap.addInstance id
  match (← heap).initializer? id with
  | some method =>
      let closure ← allocate fun heap => heap.bindThis method receiver
      let _ ← callClosure sub closure arguments
      return .instance_ receiver
  | none => return .instance_ receiver

/-- Carries out a call. -/
@[inline] def invoke (sub : Runner) (callee : Heap.Callable) (arguments : List Value) :
    Action Value :=
  match callee with
  | .native .clock => Value.number <$> readClock
  | .closure closure => callClosure sub closure arguments
  | .class_ id => construct sub id arguments

/-- A call expression: the callee and the arguments are evaluated first, then the callee must be
callable, the arguments enough, and the calls under way not too many. -/
@[inline] def evaluateCall (sub : Runner) (callee : Expr) (paren : Token)
    (arguments : List Expr) : Action Value := do
  let callee : Value ← sub (.evaluate callee)
  let arguments : List Value ← sub (.evaluateAll arguments)
  match (← heap).callable? callee with
  | none => fail .notCallable paren
  | some callable =>
      if arguments.length < (← heap).arity callable then
        fail .notEnoughArguments paren
      else if maxCallDepth ≤ (← get).callDepth then
        fail .stackOverflow paren
      else
        nested (invoke sub callable arguments)

end Lox.Run
