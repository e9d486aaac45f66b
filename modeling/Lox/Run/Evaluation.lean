import Lox.Run.Expression
import Lox.Run.Statement

/-!
# Doing tasks

`Task.step` says how each task is done, given a runner `sub` for the tasks inside it, and
`Task.run` ties the knot with a bound on how deeply tasks are nested. A `while` loop is a task
inside itself, so the bound also limits its turns. The steps are inlined, and a task that ends
with another one is a jump, so that a loop needs no stack.
-/

namespace Lox.Run

/-- Expressions are evaluated from left to right. -/
@[inline] def evaluateAll (sub : Runner) : List Expr → Action (List Value)
  | [] => return []
  | first :: rest => do
      let value : Value ← sub (.evaluate first)
      let values : List Value ← sub (.evaluateAll rest)
      return value :: values

/-- Statements are executed in order, up to the first that returns. -/
@[inline] def executeAll (sub : Runner) : List Stmt → Action Flow
  | [] => return .normal
  | first :: rest => do
      let flow : Flow ← sub (.execute first)
      match flow with
      | .normal => sub (.executeAll rest)
      | .returned value => return .returned value

namespace Task

/-- How a task is done, given a runner for the tasks inside it. -/
@[inline] def step (sub : Runner) : Runner
  | evaluate expression => Run.evaluate sub expression
  | evaluateAll expressions => Run.evaluateAll sub expressions
  | execute statement => Run.execute sub statement
  | executeAll statements => Run.executeAll sub statements

/-- Does a task, with at most `fuel` tasks inside one another. -/
def run : (fuel : Nat) → Runner
  | 0, _ => throw .outOfFuel
  | fuel + 1, task => task.step (run fuel)

end Task

/-- Runs a program with its distances, which are added to those known already, and flushes the
output at its end. -/
def interpret (fuel : Nat) (program : List Stmt) (distances : Scope.Distances) : Action Unit := do
  modify fun machine =>
    { machine with distances := machine.distances.insertMany distances.toList }
  let _ ← Task.run fuel (.executeAll program)
  flush

end Lox.Run
