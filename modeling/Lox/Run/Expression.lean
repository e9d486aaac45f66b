import Lox.Run.Call
import Lox.Run.Name
import Lox.Run.Operator

/-!
# Evaluating expressions

Operands, arguments and objects are evaluated from left to right before anything is done with
them.
-/

namespace Lox.Run

/-- `and` and `or`: the right operand is evaluated only if the left one does not decide. -/
@[inline] def evaluateLogical (sub : Runner) (left : Expr) (operator : Token) (right : Expr) :
    Action Value := do
  let value : Value ← sub (.evaluate left)
  let decided := if operator.category = .keyword .or_ then value.isTruthy else !value.isTruthy
  if decided then return value else sub (.evaluate right)

/-- Reading a property of an instance: a field, or a method bound anew. -/
@[inline] def evaluateGet (sub : Runner) (object : Expr) (name : Token) : Action Value := do
  let value : Value ← sub (.evaluate object)
  match value with
  | .instance_ receiver =>
      match (← heap).property? receiver name.lexeme with
      | some (.field value) => return value
      | some (.method method) => allocate fun heap => heap.boundMethod method receiver
      | none => fail (.undefinedProperty name.lexeme) name
  | _ => fail .noProperties name

/-- Storing a field. The object must be an instance before the value is evaluated. -/
@[inline] def evaluateSet (sub : Runner) (object : Expr) (name : Token) (value : Expr) :
    Action Value := do
  let target : Value ← sub (.evaluate object)
  match target with
  | .instance_ receiver =>
      let value : Value ← sub (.evaluate value)
      update fun heap => heap.setField receiver name.lexeme value
      return value
  | _ => fail .noFields name

/-- Evaluates an expression. -/
@[inline] def evaluate (sub : Runner) : Expr → Action Value
  | .literal _ value => return .ofLiteral value
  | .grouping _ inner => sub (.evaluate inner)
  | .unary _ operator operand => do
      let value : Value ← sub (.evaluate operand)
      unary operator value
  | .binary _ left operator right => do
      let a : Value ← sub (.evaluate left)
      let b : Value ← sub (.evaluate right)
      binary operator a b
  | .logical _ left operator right => evaluateLogical sub left operator right
  | .var id name => readVariable id name
  | .assign id name value => do
      let value : Value ← sub (.evaluate value)
      writeVariable id name value
      return value
  | .call _ callee paren arguments => evaluateCall sub callee paren arguments
  | .get _ object name => evaluateGet sub object name
  | .set _ object name value => evaluateSet sub object name value
  | .super_ id keyword method => readSuper id keyword method
  | .this_ id keyword => readVariable id keyword

end Lox.Run
