import Lox.Run.Machine

/-!
# Operators

The values of prefix and infix operators on values that have been evaluated already.
-/

namespace Lox.Run

/-- The value of a prefix operator. -/
def unary (operator : Token) (operand : Value) : Action Value :=
  match operator.category, operand with
  | .symbol .minus, .number n => return .number (-n)
  | .symbol .minus, _ => fail .operandNotNumber operator
  | .symbol .bang, _ => return .bool (!operand.isTruthy)
  | _, _ => fail .invalidUnaryOperator operator

/-- The sum of two numbers, or two strings joined. -/
def add (operator : Token) : Value → Value → Action Value
  | .number a, .number b => return .number (a + b)
  | .string a, .string b => return .string (a ++ b)
  | _, _ => fail .operandsNotAddable operator

/-- The value of an operator on numbers. -/
def arithmetic (operator : Token) (a b : Float) : Action Value :=
  match operator.category with
  | .symbol .minus => return .number (a - b)
  | .symbol .star => return .number (a * b)
  | .symbol .slash => return .number (a / b)
  | .symbol .less => return .bool (a < b)
  | .symbol .lessEqual => return .bool (a ≤ b)
  | .symbol .greater => return .bool (b < a)
  | .symbol .greaterEqual => return .bool (b ≤ a)
  | _ => fail .invalidBinaryOperator operator

/-- The value of an infix operator. -/
def binary (operator : Token) (left right : Value) : Action Value :=
  match operator.category with
  | .symbol .plus => add operator left right
  | .symbol .equalEqual => return .bool (left.equals right)
  | .symbol .bangEqual => return .bool (!left.equals right)
  | _ =>
      match left, right with
      | .number a, .number b => arithmetic operator a b
      | _, _ => fail .operandsNotNumbers operator

end Lox.Run
