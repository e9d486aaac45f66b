import Lox.Grammar.Rule

/-!
# Reading expressions

Infix operators are read by precedence: an operand, and then every operator that binds tightly
enough with its right operand, folded to the left. Calls and properties bind tighter than any
operator, and an assignment binds loosest and to the right.

The readers here and for statements are inlined into the reader for all rules, where a rule that
ends with another one is a jump.
-/

namespace Lox.Grammar

/-- How tightly an infix operator binds, from `or` at 1 to the product at 6. -/
def infixLevel : Category → Option Nat
  | .keyword .or_ => some 1
  | .keyword .and_ => some 2
  | .symbol .bangEqual | .symbol .equalEqual => some 3
  | .symbol .greater | .symbol .greaterEqual | .symbol .less | .symbol .lessEqual => some 4
  | .symbol .minus | .symbol .plus => some 5
  | .symbol .slash | .symbol .star => some 6
  | _ => none

/-- The level of the loosest infix operator. -/
def loosest : Nat := 1

/-- An expression. An equals sign makes an assignment of a variable or of a property; after
anything else it is noted as an error, and the value is dropped. -/
@[inline] def expression (sub : Readers) : Parser Expr := do
  let target : Expr ← sub (.operation loosest)
  let invalid ← faultHere .invalidAssignmentTarget
  if ← accepts (.symbol .equal) then
    let value : Expr ← sub .expression
    match target with
    | .var _ name => return .assign (← freshId) name value
    | .get _ object name => return .set (← freshId) object name value
    | other =>
        note invalid
        return other
  else
    return target

/-- Operands joined by operators of at least a level. -/
@[inline] def operation (sub : Readers) (level : Nat) : Parser Expr := do
  let left : Expr ← sub .unary
  sub (.operators level left)

/-- Folds to the left the operators of at least a level that follow an operand. The right operand
of an operator holds only tighter ones. -/
@[inline] def operators (sub : Readers) (level : Nat) (left : Expr) : Parser Expr := do
  let operator ← peek
  match infixLevel operator.category with
  | some tightness =>
      if tightness < level then
        return left
      else
        skip
        let right : Expr ← sub (.operation (tightness + 1))
        let id ← freshId
        match operator.category with
        | .keyword _ => sub (.operators level (.logical id left operator right))
        | _ => sub (.operators level (.binary id left operator right))
  | none => return left

/-- A prefix operator with its operand, or a call. -/
@[inline] def unary (sub : Readers) : Parser Expr := do
  let operator ← peek
  if (← sees (.symbol .bang)) || (← sees (.symbol .minus)) then
    skip
    let operand : Expr ← sub .unary
    return .unary (← freshId) operator operand
  else
    sub .call

/-- The arguments of a call, the first of which has index `count`. -/
@[inline] def arguments (sub : Readers) (count : Nat) : Parser (List Expr) := do
  checkLimit count .tooManyArguments
  let argument : Expr ← sub .expression
  if ← accepts (.symbol .comma) then
    let rest : List Expr ← sub (.arguments (count + 1))
    return argument :: rest
  else
    return [argument]

/-- The arguments of a call, unless the closing parenthesis follows at once. -/
@[inline] def argumentList (sub : Readers) : Parser (List Expr) := do
  if ← sees (.symbol .rightParen) then
    return []
  else
    sub (.arguments 0)

/-- The calls and properties that follow an expression. -/
@[inline] def suffixes (sub : Readers) (left : Expr) : Parser Expr := do
  if ← accepts (.symbol .leftParen) then
    let arguments ← argumentList sub
    let paren ← expectSymbol .rightParen .afterArguments
    let id ← freshId
    sub (.suffixes (.call id left paren arguments))
  else if ← accepts (.symbol .dot) then
    let name ← expectName .property
    let id ← freshId
    sub (.suffixes (.get id left name))
  else
    return left

/-- The constant that a token writes. -/
def literal? : Kind → Option Literal
  | .keyword .false_ => some (.bool false)
  | .keyword .true_ => some (.bool true)
  | .keyword .nil_ => some .nil
  | .number value => some (.number value)
  | .string contents => some (.string contents)
  | _ => none

/-- A primary expression with the calls and properties that follow it. -/
@[inline] def callExpression (sub : Readers) : Parser Expr := do
  let left : Expr ← sub .primary
  sub (.suffixes left)

/-- A constant, a name or an expression in parentheses. -/
@[inline] def primary (sub : Readers) : Parser Expr := do
  let token ← peek
  match literal? token.kind with
  | some value =>
      skip
      return .literal (← freshId) value
  | none =>
      if ← accepts (.keyword .super_) then
        let _ ← expectSymbol .dot (.afterKeyword .super_)
        let method ← expectName .superclassMethod
        return .super_ (← freshId) token method
      else if ← accepts (.keyword .this_) then
        return .this_ (← freshId) token
      else if ← accepts .identifier then
        return .var (← freshId) token
      else if ← accepts (.symbol .leftParen) then
        let inner : Expr ← sub .expression
        let _ ← expectSymbol .rightParen .afterGrouping
        return .grouping (← freshId) inner
      else
        giveUp .expectedExpression

end Lox.Grammar
