import Lox.Proofs.Numeral.Double
import Lox.Proofs.Syntax.Erasure
import Lox.Proofs.Syntax.Shape
import Lox.Proofs.Token.Spelling

/-!
# Trees of lexemes

What is known about the tokens of a tree that was read from a text without errors: each is a lexeme
of the kind that its place in the tree asks for. No constant is a number that is none.
-/

namespace Lox

/-! ## Tokens -/

theorem Kind.eq_symbol {kind : Kind} {symbol : Symbol} (h : kind.category = .symbol symbol) :
    kind = .symbol symbol := by
  cases kind <;> cases h
  rfl

theorem Kind.eq_keyword {kind : Kind} {keyword : Keyword} (h : kind.category = .keyword keyword) :
    kind = .keyword keyword := by
  cases kind <;> cases h
  rfl

theorem Kind.eq_identifier {kind : Kind} (h : kind.category = .identifier) :
    kind = .identifier := by
  cases kind <;> cases h
  rfl

/-- The text of all tokens of the category, if there is only one. -/
def Category.spelling? : Category → Option String
  | symbol s => some s.spelling
  | keyword k => some k.spelling
  | _ => none

theorem Token.Lexical.lexeme_eq {token : Token} (h : token.Lexical) {word : String}
    (hspelling : token.category.spelling? = some word) : token.lexeme = word := by
  obtain ⟨kind, lexeme, line⟩ := token
  rw [Lexical] at h
  generalize htext : lexeme.toList = text at h
  cases h <;> cases hspelling
  · exact String.toList_inj.mp htext
  · exact String.toList_inj.mp htext

/-- A word that can be a name. -/
structure IsName (word : String) : Prop where
  keyword : Keyword.ofSpelling? word = none
  characters : ∃ c rest, word.toList = c :: rest ∧ isWordStart c ∧ ∀ d ∈ rest, isWordChar d

namespace Token.Is

variable {token : Token} {symbol : Symbol} {keyword : Keyword}

theorem kind_symbol (h : token.Is Lexical (.symbol symbol)) : token.kind = .symbol symbol :=
  Kind.eq_symbol h.category

theorem kind_keyword (h : token.Is Lexical (.keyword keyword)) : token.kind = .keyword keyword :=
  Kind.eq_keyword h.category

theorem kind_identifier (h : token.Is Lexical .identifier) : token.kind = .identifier :=
  Kind.eq_identifier h.category

theorem lexeme_symbol (h : token.Is Lexical (.symbol symbol)) :
    token.lexeme = symbol.spelling :=
  h.property.lexeme_eq (by rw [h.category]; rfl)

theorem lexeme_keyword (h : token.Is Lexical (.keyword keyword)) :
    token.lexeme = keyword.spelling :=
  h.property.lexeme_eq (by rw [h.category]; rfl)

theorem isName (h : token.Is Lexical .identifier) : IsName token.lexeme := by
  have hlexical := h.property
  have hspelled := hlexical.spelled
  rw [Spelled, h.kind_identifier] at hspelled
  refine ⟨hspelled, ?_⟩
  rw [Lexical, h.kind_identifier] at hlexical
  generalize token.lexeme.toList = text at hlexical
  cases hlexical with
  | identifier hstart hrest => exact ⟨_, _, rfl, hstart, hrest⟩

end Token.Is

/-! ## Trees -/

/-- The constant is no number that is not a number. -/
def Literal.Numeric : Literal → Prop
  | number value => Numeral.Double.ofFloat value ≠ .notANumber
  | _ => True

theorem Token.Lexical.numeric {token : Token} {value : Float} (h : token.Lexical)
    (hkind : token.kind = .number value) : (Literal.number value).Numeric := by
  rw [Token.Lexical, hkind] at h
  generalize token.lexeme.toList = text at h
  cases h with
  | whole | decimal => exact Numeral.Double.ofScientific_isNumber _ _ _

mutual

/-- The tokens of an expression are lexemes of the right kinds. -/
def Expr.Legible : Expr → Prop
  | .literal _ value => value.Numeric
  | .grouping _ inner => inner.Legible
  | .unary _ operator operand =>
      (operator.category ∈ unaryOperators ∧ operator.Lexical) ∧ operand.Legible
  | .binary _ left operator right =>
      left.Legible ∧ (operator.category ∈ binaryOperators ∧ operator.Lexical) ∧ right.Legible
  | .logical _ left operator right =>
      left.Legible ∧ (operator.category ∈ logicalOperators ∧ operator.Lexical) ∧ right.Legible
  | .var _ name => name.Is Token.Lexical .identifier
  | .assign _ name value => name.Is Token.Lexical .identifier ∧ value.Legible
  | .call _ callee paren arguments =>
      callee.Legible ∧ paren.Is Token.Lexical (.symbol .rightParen) ∧ Expr.LegibleAll arguments
  | .get _ object name => object.Legible ∧ name.Is Token.Lexical .identifier
  | .set _ object name value =>
      object.Legible ∧ name.Is Token.Lexical .identifier ∧ value.Legible
  | .super_ _ keyword method =>
      keyword.Is Token.Lexical (.keyword .super_) ∧ method.Is Token.Lexical .identifier
  | .this_ _ keyword => keyword.Is Token.Lexical (.keyword .this_)

/-- The tokens of expressions are lexemes of the right kinds. -/
def Expr.LegibleAll : List Expr → Prop
  | [] => True
  | e :: rest => e.Legible ∧ Expr.LegibleAll rest

end

/-- The tokens of an expression that may be missing are lexemes of the right kinds. -/
def Expr.LegibleOpt : Option Expr → Prop
  | none => True
  | some e => e.Legible

mutual

/-- The tokens of a statement are lexemes of the right kinds. -/
def Stmt.Legible : Stmt → Prop
  | .expression value | .print value => value.Legible
  | .var name initializer => name.Is Token.Lexical .identifier ∧ Expr.LegibleOpt initializer
  | .block body => Stmt.LegibleAll body
  | .function declaration => declaration.Legible
  | .class_ name superclass methods =>
      name.Is Token.Lexical .identifier ∧ Expr.NameOpt Token.Lexical superclass ∧
        FunctionDecl.LegibleAll methods
  | .ifThen condition thenBranch => condition.Legible ∧ thenBranch.Legible
  | .ifElse condition thenBranch elseBranch =>
      condition.Legible ∧ thenBranch.Legible ∧ elseBranch.Legible
  | .while_ condition body => condition.Legible ∧ body.Legible
  | .return_ keyword value =>
      keyword.Is Token.Lexical (.keyword .return_) ∧ Expr.LegibleOpt value

/-- The tokens of statements are lexemes of the right kinds. -/
def Stmt.LegibleAll : List Stmt → Prop
  | [] => True
  | s :: rest => s.Legible ∧ Stmt.LegibleAll rest

/-- The tokens of a function are lexemes of the right kinds. -/
def FunctionDecl.Legible : FunctionDecl → Prop
  | ⟨name, parameters, body⟩ =>
      name.Is Token.Lexical .identifier ∧ Token.NameAll Token.Lexical parameters ∧
        Stmt.LegibleAll body

/-- The tokens of methods are lexemes of the right kinds. -/
def FunctionDecl.LegibleAll : List FunctionDecl → Prop
  | [] => True
  | d :: rest => d.Legible ∧ FunctionDecl.LegibleAll rest

end

/-! ## Constants -/

/-- The constant can be told from what is shown for it: it is no string and not infinite. -/
def Literal.Shown : Literal → Prop
  | number value => ∀ negative, Numeral.Double.ofFloat value ≠ .infinite negative
  | string _ => False
  | bool _ | nil => True

theorem Literal.finite_of_shown {value : Float} (h : (number value).Numeric)
    (hshown : (number value).Shown) :
    ∃ negative m, Numeral.Double.ofFloat value = .finite negative m := by
  cases hdouble : Numeral.Double.ofFloat value with
  | notANumber => exact absurd hdouble h
  | infinite negative => exact absurd hdouble (hshown negative)
  | finite negative m => exact ⟨negative, m, rfl⟩

mutual

/-- The constants in an expression. -/
def Expr.constants : Expr → List Literal
  | .literal _ value => [value]
  | .var _ _ | .super_ _ _ _ | .this_ _ _ => []
  | .grouping _ inner => inner.constants
  | .unary _ _ operand => operand.constants
  | .binary _ left _ right | .logical _ left _ right => left.constants ++ right.constants
  | .assign _ _ value => value.constants
  | .call _ callee _ arguments => callee.constants ++ Expr.constantsAll arguments
  | .get _ object _ => object.constants
  | .set _ object _ value => object.constants ++ value.constants

/-- The constants in a list of expressions. -/
def Expr.constantsAll : List Expr → List Literal
  | [] => []
  | e :: rest => e.constants ++ Expr.constantsAll rest

end

/-- The constants in an expression that may be missing. -/
def Expr.constantsOpt : Option Expr → List Literal
  | none => []
  | some e => e.constants

mutual

/-- The constants in a statement. -/
def Stmt.constants : Stmt → List Literal
  | .expression value | .print value => value.constants
  | .var _ initializer => Expr.constantsOpt initializer
  | .block body => Stmt.constantsAll body
  | .function declaration => declaration.constants
  | .class_ _ superclass methods =>
      Expr.constantsOpt superclass ++ FunctionDecl.constantsAll methods
  | .ifThen condition thenBranch => condition.constants ++ thenBranch.constants
  | .ifElse condition thenBranch elseBranch =>
      condition.constants ++ (thenBranch.constants ++ elseBranch.constants)
  | .while_ condition body => condition.constants ++ body.constants
  | .return_ _ value => Expr.constantsOpt value

/-- The constants in a list of statements. -/
def Stmt.constantsAll : List Stmt → List Literal
  | [] => []
  | s :: rest => s.constants ++ Stmt.constantsAll rest

/-- The constants in the body of a function. -/
def FunctionDecl.constants : FunctionDecl → List Literal
  | ⟨_, _, body⟩ => Stmt.constantsAll body

/-- The constants in the bodies of methods. -/
def FunctionDecl.constantsAll : List FunctionDecl → List Literal
  | [] => []
  | d :: rest => d.constants ++ FunctionDecl.constantsAll rest

end

/-! ## Identities do not matter -/

mutual

theorem Expr.legible_of_erase {e : Expr} (h : e.erase.Legible) : e.Legible := by
  cases e with
  | literal id value => exact h
  | grouping id inner => exact Expr.legible_of_erase (e := inner) h
  | unary id operator operand => exact ⟨h.1, Expr.legible_of_erase h.2⟩
  | binary id left operator right =>
      exact ⟨Expr.legible_of_erase h.1, h.2.1, Expr.legible_of_erase h.2.2⟩
  | logical id left operator right =>
      exact ⟨Expr.legible_of_erase h.1, h.2.1, Expr.legible_of_erase h.2.2⟩
  | var id name => exact h
  | assign id name value => exact ⟨h.1, Expr.legible_of_erase h.2⟩
  | call id callee paren arguments =>
      exact ⟨Expr.legible_of_erase h.1, h.2.1, Expr.legibleAll_of_erase h.2.2⟩
  | get id object name => exact ⟨Expr.legible_of_erase h.1, h.2⟩
  | set id object name value =>
      exact ⟨Expr.legible_of_erase h.1, h.2.1, Expr.legible_of_erase h.2.2⟩
  | super_ id keyword method => exact h
  | this_ id keyword => exact h

theorem Expr.legibleAll_of_erase {es : List Expr} (h : Expr.LegibleAll (Expr.eraseAll es)) :
    Expr.LegibleAll es := by
  cases es with
  | nil => exact h
  | cons e rest => exact ⟨Expr.legible_of_erase h.1, Expr.legibleAll_of_erase h.2⟩

end

theorem Expr.legibleOpt_of_erase {e : Option Expr} (h : Expr.LegibleOpt (e.map Expr.erase)) :
    Expr.LegibleOpt e := by
  cases e with
  | none => exact h
  | some e => exact Expr.legible_of_erase h

theorem Expr.nameOpt_of_erase {property : Token → Prop} {e : Option Expr}
    (h : Expr.NameOpt property (e.map Expr.erase)) : Expr.NameOpt property e := by
  cases e with
  | none => exact h
  | some e =>
      obtain ⟨id, name, herase, hname⟩ := h
      cases e with
      | var id name =>
          cases herase
          exact ⟨id, name, rfl, hname⟩
      | _ => cases herase

mutual

theorem Stmt.legible_of_erase {s : Stmt} (h : s.erase.Legible) : s.Legible := by
  cases s with
  | expression value => exact Expr.legible_of_erase h
  | print value => exact Expr.legible_of_erase h
  | var name initializer => exact ⟨h.1, Expr.legibleOpt_of_erase h.2⟩
  | block body => exact Stmt.legibleAll_of_erase h
  | function declaration => exact FunctionDecl.legible_of_erase h
  | class_ name superclass methods =>
      exact ⟨h.1, Expr.nameOpt_of_erase h.2.1, FunctionDecl.legibleAll_of_erase h.2.2⟩
  | ifThen condition thenBranch =>
      exact ⟨Expr.legible_of_erase h.1, Stmt.legible_of_erase h.2⟩
  | ifElse condition thenBranch elseBranch =>
      exact ⟨Expr.legible_of_erase h.1, Stmt.legible_of_erase h.2.1, Stmt.legible_of_erase h.2.2⟩
  | while_ condition body => exact ⟨Expr.legible_of_erase h.1, Stmt.legible_of_erase h.2⟩
  | return_ keyword value => exact ⟨h.1, Expr.legibleOpt_of_erase h.2⟩

theorem Stmt.legibleAll_of_erase {statements : List Stmt}
    (h : Stmt.LegibleAll (Stmt.eraseAll statements)) : Stmt.LegibleAll statements := by
  cases statements with
  | nil => exact h
  | cons s rest => exact ⟨Stmt.legible_of_erase h.1, Stmt.legibleAll_of_erase h.2⟩

theorem FunctionDecl.legible_of_erase {declaration : FunctionDecl}
    (h : declaration.erase.Legible) : declaration.Legible := by
  cases declaration with
  | mk name parameters body => exact ⟨h.1, h.2.1, Stmt.legibleAll_of_erase h.2.2⟩

theorem FunctionDecl.legibleAll_of_erase {methods : List FunctionDecl}
    (h : FunctionDecl.LegibleAll (FunctionDecl.eraseAll methods)) :
    FunctionDecl.LegibleAll methods := by
  cases methods with
  | nil => exact h
  | cons d rest => exact ⟨FunctionDecl.legible_of_erase h.1, FunctionDecl.legibleAll_of_erase h.2⟩

end

theorem Stmt.LegibleAll.of_mem {statements : List Stmt} (h : Stmt.LegibleAll statements) {s : Stmt}
    (hs : s ∈ statements) : s.Legible := by
  induction statements with
  | nil => cases hs
  | cons first rest ih =>
      rcases List.mem_cons.mp hs with rfl | hs
      · exact h.1
      · exact ih h.2 hs

end Lox
