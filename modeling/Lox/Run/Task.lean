import Lox.Run.Machine

/-!
# Tasks

`Task` lists what a machine can be asked to do, and `Task.Result` what it gives. How a task is done
is defined for any runner of the tasks inside it, so that each kind of task stands by itself.
-/

namespace Lox.Run

/-- How a statement ends. -/
inductive Flow where
  | normal
  | returned (value : Value)

/-- Something to be done. -/
inductive Task where
  | evaluate (expression : Expr)
  | evaluateAll (expressions : List Expr)
  | execute (statement : Stmt)
  | executeAll (statements : List Stmt)

/-- What a task gives. -/
@[reducible] def Task.Result : Task → Type
  | evaluate _ => Value
  | evaluateAll _ => List Value
  | execute _ => Flow
  | executeAll _ => Flow

/-- A runner for every task. -/
abbrev Runner := (task : Task) → Action task.Result

end Lox.Run
