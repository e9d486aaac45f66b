import Lox.Token.Basic

/-!
# Run-time errors

What can go wrong while a program runs. A fault and the token that it is blamed on are a
`RuntimeError`, which names the token's line.
-/

namespace Lox

/-- Why a running program stops. -/
inductive RuntimeFault where
  | operandNotNumber
  | operandsNotNumbers
  | operandsNotAddable
  | invalidUnaryOperator
  | invalidBinaryOperator
  | undefinedVariable (name : String)
  | undefinedProperty (name : String)
  | notCallable
  | notEnoughArguments
  | stackOverflow
  | noProperties
  | noFields
  | superclassNotClass
  | unresolvedSuper
  | unresolvedThis
  deriving DecidableEq, Repr

/-- The fault in words. -/
def RuntimeFault.message : RuntimeFault → String
  | operandNotNumber => "Operand must be a number."
  | operandsNotNumbers => "Operands must be numbers."
  | operandsNotAddable => "Operands must be two numbers or two strings."
  | invalidUnaryOperator => "Invalid unary operator."
  | invalidBinaryOperator => "Invalid binary operator."
  | undefinedVariable name => "Undefined variable '" ++ name ++ "'."
  | undefinedProperty name => "Undefined property '" ++ name ++ "'."
  | notCallable => "Can only call functions and classes."
  | notEnoughArguments => "Not enough arguments."
  | stackOverflow => "Stack overflow."
  | noProperties => "Only instances have properties."
  | noFields => "Only instances have fields."
  | superclassNotClass => "Superclass must be a class."
  | unresolvedSuper => "Unresolved 'super'."
  | unresolvedThis => "Unresolved 'this'."

/-- A fault and the token that it is blamed on. -/
structure RuntimeError where
  fault : RuntimeFault
  token : Token

end Lox
