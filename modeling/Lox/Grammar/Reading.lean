import Lox.Grammar.Expression
import Lox.Grammar.Statement

/-!
# Reading by a rule

`Rule.step` brings the readers of all rules together, given a reader `sub` for the rules that they
refer to, and `Rule.run` ties the knot. It counts down on every reference to a rule; since a rule
refers to another at the same token only in a fixed order, a few references for each token suffice.
-/

namespace Lox.Grammar

namespace Rule

/-- How a rule reads its input, given readers for the rules that it refers to. -/
@[inline] def step (sub : Readers) : Readers
  | declarations inBlock => Grammar.declarations sub inBlock
  | declaration => Grammar.declaration sub
  | statement => Grammar.statement sub
  | methods => Grammar.methods sub
  | parameters count => Grammar.parameters sub count
  | expression => Grammar.expression sub
  | operation level => Grammar.operation sub level
  | operators level left => Grammar.operators sub level left
  | unary => Grammar.unary sub
  | call => Grammar.callExpression sub
  | suffixes left => Grammar.suffixes sub left
  | arguments count => Grammar.arguments sub count
  | primary => Grammar.primary sub

/-- Reads by a rule, following at most `fuel` references in a row. -/
def run : (fuel : Nat) → Readers
  | 0, _ => throw .outOfFuel
  | fuel + 1, rule => rule.step (run fuel)

end Rule

end Lox.Grammar
