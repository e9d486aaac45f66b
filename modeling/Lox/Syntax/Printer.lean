import Lox.Syntax.Basic

/-!
# Printing trees

A tree is printed in parentheses with the operator first, such as `(+ 1.0 (group 2.0))`.
-/

namespace Lox

/-- Items after a blank each. -/
def spaced (items : List String) : String :=
  String.join (items.map (" " ++ ·))

/-- A constant as trees show it. A string is shown without quotation marks. -/
def Literal.render : Literal → String
  | number value => Numeral.pointed value
  | string contents => contents
  | bool true => "true"
  | bool false => "false"
  | nil => "nil"

mutual

/-- An expression in prefix form. -/
def Expr.render : Expr → String
  | .literal _ value => value.render
  | .grouping _ inner => "(group " ++ inner.render ++ ")"
  | .unary _ operator operand => "(" ++ operator.lexeme ++ " " ++ operand.render ++ ")"
  | .binary _ left operator right | .logical _ left operator right =>
      "(" ++ operator.lexeme ++ " " ++ left.render ++ " " ++ right.render ++ ")"
  | .var _ name => name.lexeme
  | .assign _ name value => "(= " ++ name.lexeme ++ " " ++ value.render ++ ")"
  | .call _ callee _ arguments =>
      "(call " ++ callee.render ++ spaced (Expr.renderAll arguments) ++ ")"
  | .get _ object name => "(. " ++ object.render ++ " " ++ name.lexeme ++ ")"
  | .set _ object name value =>
      "(= (. " ++ object.render ++ " " ++ name.lexeme ++ ") " ++ value.render ++ ")"
  | .super_ _ _ method => "(super " ++ method.lexeme ++ ")"
  | .this_ _ _ => "this"

/-- Each expression of a list in prefix form. -/
def Expr.renderAll : List Expr → List String
  | [] => []
  | e :: rest => e.render :: Expr.renderAll rest

end

mutual

/-- A statement in prefix form. -/
def Stmt.render : Stmt → String
  | .expression value => "(; " ++ value.render ++ ")"
  | .print value => "(print " ++ value.render ++ ")"
  | .var name none => "(var " ++ name.lexeme ++ ")"
  | .var name (some value) => "(var " ++ name.lexeme ++ " " ++ value.render ++ ")"
  | .block body => "(block" ++ spaced (Stmt.renderAll body) ++ ")"
  | .function declaration => "(fun " ++ declaration.render ++ ")"
  | .class_ name none methods =>
      "(class " ++ name.lexeme ++ spaced (FunctionDecl.renderAll methods) ++ ")"
  | .class_ name (some superclass) methods =>
      "(class " ++ name.lexeme ++ " < " ++ superclass.render ++
        spaced (FunctionDecl.renderAll methods) ++ ")"
  | .ifThen condition thenBranch =>
      "(if " ++ condition.render ++ " " ++ thenBranch.render ++ ")"
  | .ifElse condition thenBranch elseBranch =>
      "(if " ++ condition.render ++ " " ++ thenBranch.render ++ " " ++ elseBranch.render ++ ")"
  | .while_ condition body => "(while " ++ condition.render ++ " " ++ body.render ++ ")"
  | .return_ _ none => "(return)"
  | .return_ _ (some value) => "(return " ++ value.render ++ ")"

/-- Each statement of a list in prefix form. -/
def Stmt.renderAll : List Stmt → List String
  | [] => []
  | s :: rest => s.render :: Stmt.renderAll rest

/-- The name, the parameters in parentheses and the body. -/
def FunctionDecl.render : FunctionDecl → String
  | ⟨name, parameters, body⟩ =>
      name.lexeme ++ "(" ++ " ".intercalate (parameters.map Token.lexeme) ++ ")" ++
        spaced (Stmt.renderAll body)

/-- Each method of a list in parentheses. -/
def FunctionDecl.renderAll : List FunctionDecl → List String
  | [] => []
  | d :: rest => ("(" ++ d.render ++ ")") :: FunctionDecl.renderAll rest

end

end Lox
