import Lox.Proofs.Numeral.Notation
import Lox.Proofs.Syntax.Legible
import Lox.Proofs.Syntax.Moved
import Lox.Proofs.Syntax.Printing

/-!
# Printed trees can be read back

A tree of lexemes without strings and infinite numbers is given back by its form, but for the
identities of its expressions and the lines of its tokens.
-/

namespace Lox

/-! ## Bare trees -/

/-- The token on no line. -/
def Token.unlined (token : Token) : Token :=
  { token with line := 0 }

/-- The expression without identities and lines. -/
def Expr.bare (e : Expr) : Expr :=
  (e.mapTokens Token.unlined).erase

/-- The statement without identities and lines. -/
def Stmt.bare (s : Stmt) : Stmt :=
  (s.mapTokens Token.unlined).erase

/-! ## Reading words -/

/-- The symbol with the given spelling. -/
def Symbol.ofSpelling? (word : String) : Option Symbol :=
  all.find? (·.spelling == word)

@[simp] theorem Symbol.ofSpelling?_spelling (symbol : Symbol) :
    ofSpelling? symbol.spelling = some symbol := by
  cases symbol <;> decide

@[simp] theorem Keyword.ofSpelling?_symbol (symbol : Symbol) :
    ofSpelling? symbol.spelling = none := by
  cases symbol <;> decide

namespace Token

/-- A name. -/
def ofName (name : String) : Token :=
  ⟨.identifier, name, 0⟩

/-- A keyword. -/
def ofKeyword (keyword : Keyword) : Token :=
  ⟨.keyword keyword, keyword.spelling, 0⟩

/-- A symbol. -/
def ofSymbol (symbol : Symbol) : Token :=
  ⟨.symbol symbol, symbol.spelling, 0⟩

theorem Is.unlined_symbol {token : Token} {symbol : Symbol}
    (h : token.Is Lexical (.symbol symbol)) : token.unlined = ofSymbol symbol := by
  rw [unlined, h.kind_symbol, h.lexeme_symbol, ofSymbol]

theorem Is.unlined_keyword {token : Token} {keyword : Keyword}
    (h : token.Is Lexical (.keyword keyword)) : token.unlined = ofKeyword keyword := by
  rw [unlined, h.kind_keyword, h.lexeme_keyword, ofKeyword]

theorem Is.unlined_identifier {token : Token} (h : token.Is Lexical .identifier) :
    token.unlined = ofName token.lexeme := by
  rw [unlined, h.kind_identifier, ofName]

end Token

section

variable (read : String → Float)

/-- The expression that a word is, with a function that reads numbers. -/
def Expr.ofWord (word : String) : Expr :=
  match Keyword.ofSpelling? word with
  | some .true_ => .literal 0 (.bool true)
  | some .false_ => .literal 0 (.bool false)
  | some .nil_ => .literal 0 .nil
  | some keyword => .this_ 0 (.ofKeyword keyword)
  | none =>
      if word.toList.head?.any isWordStart then .var 0 (.ofName word)
      else .literal 0 (.number (read word))

/-- Two operands joined by an operator. -/
def Expr.joined (operator : String) (left right : Expr) : Expr :=
  match Keyword.ofSpelling? operator with
  | some keyword => .logical 0 left (.ofKeyword keyword) right
  | none => .binary 0 left (.ofSymbol ((Symbol.ofSpelling? operator).getD .star)) right

mutual

/-- The expression that a form is. -/
def Form.expr : Form → Expr
  | .word spelling => .ofWord read spelling
  | .list "group" [inner] => .grouping 0 inner.expr
  | .list "=" [.word name, value] => .assign 0 (.ofName name) value.expr
  | .list "=" [.list "." [object, .word name], value] =>
      .set 0 object.expr (.ofName name) value.expr
  | .list "." [object, .word name] => .get 0 object.expr (.ofName name)
  | .list "call" (callee :: arguments) =>
      .call 0 callee.expr (.ofSymbol .rightParen) (Form.exprs arguments)
  | .list "super" [.word method] => .super_ 0 (.ofKeyword .super_) (.ofName method)
  | .list operator [operand] =>
      .unary 0 (.ofSymbol ((Symbol.ofSpelling? operator).getD .bang)) operand.expr
  | .list operator [left, right] => .joined operator left.expr right.expr
  | _ => default

/-- The expressions that forms are. -/
def Form.exprs : List Form → List Expr
  | [] => []
  | f :: rest => f.expr :: Form.exprs rest

end

mutual

/-- The statement that a form is. -/
def Form.stmt : Form → Stmt
  | .list ";" [value] => .expression (value.expr read)
  | .list "print" [value] => .print (value.expr read)
  | .list "var" [.word name] => .var (.ofName name) none
  | .list "var" [.word name, value] => .var (.ofName name) (some (value.expr read))
  | .list "block" body => .block (Form.stmts body)
  | .list "fun" items => .function (Form.function items)
  | .list "class" (.word name :: .word "<" :: superclass :: methods) =>
      .class_ (.ofName name) (some (superclass.expr read)) (Form.functions methods)
  | .list "class" (.word name :: methods) => .class_ (.ofName name) none (Form.functions methods)
  | .list "if" [condition, thenBranch] => .ifThen (condition.expr read) thenBranch.stmt
  | .list "if" [condition, thenBranch, elseBranch] =>
      .ifElse (condition.expr read) thenBranch.stmt elseBranch.stmt
  | .list "while" [condition, body] => .while_ (condition.expr read) body.stmt
  | .list "return" [] => .return_ (.ofKeyword .return_) none
  | .list "return" [value] => .return_ (.ofKeyword .return_) (some (value.expr read))
  | _ => default

/-- The statements that forms are. -/
def Form.stmts : List Form → List Stmt
  | [] => []
  | f :: rest => f.stmt :: Form.stmts rest

/-- The function that forms are. -/
def Form.function : List Form → FunctionDecl
  | .group name parameters :: body =>
      ⟨.ofName name, parameters.map fun parameter => .ofName parameter.text, Form.stmts body⟩
  | _ => default

/-- The methods that forms are. -/
def Form.functions : List Form → List FunctionDecl
  | .group _ items :: rest => Form.function items :: Form.functions rest
  | _ => []

end

end

/-! ## Reading back the form of a tree -/

section

variable {read : String → Float}

theorem Form.expr_unary {symbol : Symbol} (h : .symbol symbol ∈ unaryOperators) (operand : Form) :
    Form.expr read (.list symbol.spelling [operand]) =
      .unary 0 (.ofSymbol symbol) (operand.expr read) := by
  simp only [unaryOperators, List.mem_cons, Category.symbol.injEq, List.not_mem_nil, or_false] at h
  rcases h with rfl | rfl <;> simp [Symbol.spelling, Form.expr] <;> rfl

theorem Form.expr_binary {symbol : Symbol} (h : .symbol symbol ∈ binaryOperators)
    (left right : Form) : Form.expr read (.list symbol.spelling [left, right]) =
      .binary 0 (left.expr read) (.ofSymbol symbol) (right.expr read) := by
  have hjoined (l r : Expr) :
      Expr.joined symbol.spelling l r = .binary 0 l (.ofSymbol symbol) r := by
    simp [Expr.joined]
  rw [← hjoined]
  simp only [binaryOperators, List.mem_cons, Category.symbol.injEq, List.not_mem_nil, or_false] at h
  rcases h with rfl | rfl | rfl | rfl | rfl | rfl | rfl | rfl | rfl | rfl <;>
    simp [Symbol.spelling, Form.expr]

theorem Form.expr_logical {keyword : Keyword} (h : .keyword keyword ∈ logicalOperators)
    (left right : Form) : Form.expr read (.list keyword.spelling [left, right]) =
      .logical 0 (left.expr read) (.ofKeyword keyword) (right.expr read) := by
  have hjoined (l r : Expr) :
      Expr.joined keyword.spelling l r = .logical 0 l (.ofKeyword keyword) r := by
    simp [Expr.joined]
  rw [← hjoined]
  simp only [logicalOperators, List.mem_cons, Category.keyword.injEq, List.not_mem_nil,
    or_false] at h
  rcases h with rfl | rfl <;> simp [Keyword.spelling, Form.expr]

theorem Form.expr_unary_lexical {operator : Token}
    (h : operator.category ∈ unaryOperators ∧ operator.Lexical) (operand : Form) :
    Form.expr read (.list operator.lexeme [operand]) =
      .unary 0 operator.unlined (operand.expr read) := by
  have hsymbols : ∀ category ∈ unaryOperators, ∃ symbol, category = .symbol symbol := by
    simp [unaryOperators]
  obtain ⟨symbol, hsymbol⟩ := hsymbols _ h.1
  have hoperator : operator.Is Token.Lexical (.symbol symbol) := ⟨hsymbol, h.2⟩
  rw [hoperator.lexeme_symbol, hoperator.unlined_symbol, Form.expr_unary (hsymbol ▸ h.1)]

theorem Form.expr_binary_lexical {operator : Token}
    (h : operator.category ∈ binaryOperators ∧ operator.Lexical) (left right : Form) :
    Form.expr read (.list operator.lexeme [left, right]) =
      .binary 0 (left.expr read) operator.unlined (right.expr read) := by
  have hsymbols : ∀ category ∈ binaryOperators, ∃ symbol, category = .symbol symbol := by
    simp [binaryOperators]
  obtain ⟨symbol, hsymbol⟩ := hsymbols _ h.1
  have hoperator : operator.Is Token.Lexical (.symbol symbol) := ⟨hsymbol, h.2⟩
  rw [hoperator.lexeme_symbol, hoperator.unlined_symbol, Form.expr_binary (hsymbol ▸ h.1)]

theorem Form.expr_logical_lexical {operator : Token}
    (h : operator.category ∈ logicalOperators ∧ operator.Lexical) (left right : Form) :
    Form.expr read (.list operator.lexeme [left, right]) =
      .logical 0 (left.expr read) operator.unlined (right.expr read) := by
  have hkeywords : ∀ category ∈ logicalOperators, ∃ keyword, category = .keyword keyword := by
    simp [logicalOperators]
  obtain ⟨keyword, hkeyword⟩ := hkeywords _ h.1
  have hoperator : operator.Is Token.Lexical (.keyword keyword) := ⟨hkeyword, h.2⟩
  rw [hoperator.lexeme_keyword, hoperator.unlined_keyword, Form.expr_logical (hkeyword ▸ h.1)]

theorem Form.stmt_class (name : String) (methods : List FunctionDecl) :
    Form.stmt read (.list "class" (.word name :: FunctionDecl.formAll methods)) =
      .class_ (.ofName name) none (Form.functions read (FunctionDecl.formAll methods)) := by
  cases methods with
  | nil => rfl
  | cons d rest => rw [FunctionDecl.formAll, Form.stmt]; nofun

theorem Form.parameters_lexical {parameters : List Token}
    (h : Token.NameAll Token.Lexical parameters) :
    (parameters.map fun parameter => Form.word parameter.lexeme).map
      (fun parameter => Token.ofName parameter.text) = parameters.map Token.unlined := by
  rw [List.map_map]
  refine List.map_congr_left fun parameter hparameter => ?_
  rw [(h parameter hparameter).unlined_identifier, Function.comp_apply, Form.text]

theorem Expr.ofWord_name {word : String} (h : IsName word) :
    Expr.ofWord read word = .var 0 (.ofName word) := by
  obtain ⟨hkeyword, c, rest, htext, hstart, -⟩ := h
  simp [Expr.ofWord, hkeyword, htext, hstart]

/-- A text that begins as no word does is no keyword. -/
theorem Keyword.ofSpelling?_eq_none {word : String} {c : Char} {rest : List Char}
    (htext : word.toList = c :: rest) (hc : ¬isWordStart c) : ofSpelling? word = none := by
  refine Option.eq_none_iff_forall_ne_some.mpr fun keyword hsome => ?_
  obtain ⟨d, more, hspelling, hstart, -⟩ := keyword.spelling_word
  rw [spelling_of_ofSpelling? hsome, htext] at hspelling
  cases hspelling
  exact hc hstart

theorem Expr.ofWord_pointed (hread : Numeral.ReadsBack read) {x : Float} {negative : Bool}
    {m : Numeral.Magnitude} (h : Numeral.Double.ofFloat x = .finite negative m) :
    Expr.ofWord read (Numeral.pointed x) = .literal 0 (.number x) := by
  obtain ⟨c, rest, htext, hc, -⟩ := Numeral.pointed_characters h
  have hstart : ¬isWordStart c := by
    rcases hc with rfl | hc
    · decide
    · exact fun hstart => Piece.not_isDigit_of_wordStart hstart hc
  simp [Expr.ofWord, Keyword.ofSpelling?_eq_none htext hstart, htext, hstart, hread h]

theorem Expr.ofWord_render (hread : Numeral.ReadsBack read) {value : Literal} (h : value.Numeric)
    (hshown : value.Shown) : Expr.ofWord read value.render = .literal 0 value := by
  cases value with
  | number value =>
      obtain ⟨negative, m, hdouble⟩ := Literal.finite_of_shown h hshown
      exact Expr.ofWord_pointed hread hdouble
  | string contents => exact hshown.elim
  | bool value => cases value <;> rfl
  | nil => rfl

mutual

theorem Expr.expr_form (hread : Numeral.ReadsBack read) (e : Expr) (h : e.Legible)
    (hshown : ∀ value ∈ e.constants, value.Shown) : e.form.expr read = e.bare := by
  cases e with
  | literal id value =>
      rw [Expr.form, Form.expr, Expr.ofWord_render hread h (hshown value List.mem_cons_self)]
      rfl
  | grouping id inner =>
      rw [Expr.form, Form.expr, Expr.expr_form hread inner h hshown]
      rfl
  | unary id operator operand =>
      rw [Expr.form, Form.expr_unary_lexical h.1, Expr.expr_form hread operand h.2 hshown]
      rfl
  | binary id left operator right =>
      obtain ⟨hleft, hoperator, hright⟩ := h
      obtain ⟨hleftShown, hrightShown⟩ := List.forall_mem_append.mp hshown
      rw [Expr.form, Form.expr_binary_lexical hoperator, Expr.expr_form hread left hleft hleftShown,
        Expr.expr_form hread right hright hrightShown]
      rfl
  | logical id left operator right =>
      obtain ⟨hleft, hoperator, hright⟩ := h
      obtain ⟨hleftShown, hrightShown⟩ := List.forall_mem_append.mp hshown
      rw [Expr.form, Form.expr_logical_lexical hoperator,
        Expr.expr_form hread left hleft hleftShown, Expr.expr_form hread right hright hrightShown]
      rfl
  | var id name =>
      have hname := Token.Is.isName h
      have hbare := Token.Is.unlined_identifier h
      rw [Expr.form, Form.expr, Expr.ofWord_name hname, ← hbare]
      rfl
  | assign id name value =>
      have hbare := h.1.unlined_identifier
      rw [Expr.form, Form.expr, Expr.expr_form hread value h.2 hshown, ← hbare]
      rfl
  | call id callee paren arguments =>
      obtain ⟨hcallee, hparen, harguments⟩ := h
      obtain ⟨hcalleeShown, hargumentsShown⟩ := List.forall_mem_append.mp hshown
      rw [Expr.form, Form.expr, Expr.expr_form hread callee hcallee hcalleeShown,
        Expr.exprs_formAll hread arguments harguments hargumentsShown, ← hparen.unlined_symbol]
      rfl
  | get id object name =>
      have hbare := h.2.unlined_identifier
      rw [Expr.form, Form.expr, Expr.expr_form hread object h.1 hshown, ← hbare]
      rfl
  | set id object name value =>
      obtain ⟨hobject, hname, hvalue⟩ := h
      obtain ⟨hobjectShown, hvalueShown⟩ := List.forall_mem_append.mp hshown
      rw [Expr.form, Form.expr, Expr.expr_form hread object hobject hobjectShown,
        Expr.expr_form hread value hvalue hvalueShown, ← hname.unlined_identifier]
      rfl
  | super_ id keyword method =>
      obtain ⟨hkeyword, hmethod⟩ := h
      rw [Expr.form, Form.expr, ← hkeyword.unlined_keyword, ← hmethod.unlined_identifier]
      rfl
  | this_ id keyword =>
      have hbare := Token.Is.unlined_keyword h
      change Expr.this_ 0 (.ofKeyword .this_) = Expr.this_ 0 keyword.unlined
      rw [hbare]

theorem Expr.exprs_formAll (hread : Numeral.ReadsBack read) (es : List Expr)
    (h : Expr.LegibleAll es) (hshown : ∀ value ∈ Expr.constantsAll es, value.Shown) :
    Form.exprs read (Expr.formAll es) = Expr.eraseAll (Expr.mapTokensAll Token.unlined es) := by
  cases es with
  | nil => rfl
  | cons e rest =>
      obtain ⟨hfirst, hrest⟩ := List.forall_mem_append.mp hshown
      rw [Expr.formAll, Form.exprs, Expr.expr_form hread e h.1 hfirst,
        Expr.exprs_formAll hread rest h.2 hrest]
      rfl

end

mutual

theorem Stmt.stmt_form (hread : Numeral.ReadsBack read) (s : Stmt) (h : s.Legible)
    (hshown : ∀ value ∈ s.constants, value.Shown) : s.form.stmt read = s.bare := by
  cases s with
  | expression value =>
      rw [Stmt.form, Form.stmt, Expr.expr_form hread value h hshown]
      rfl
  | print value =>
      rw [Stmt.form, Form.stmt, Expr.expr_form hread value h hshown]
      rfl
  | var name initializer =>
      obtain ⟨hname, hinitializer⟩ := h
      cases initializer with
      | none =>
          rw [Stmt.form, Form.stmt, ← hname.unlined_identifier]
          rfl
      | some value =>
          rw [Stmt.form, Form.stmt, Expr.expr_form hread value hinitializer hshown,
            ← hname.unlined_identifier]
          rfl
  | block body =>
      rw [Stmt.form, Form.stmt, Stmt.stmts_formAll hread body h hshown]
      rfl
  | function declaration =>
      rw [Stmt.form, Form.stmt, FunctionDecl.function_forms hread declaration h hshown]
      rfl
  | class_ name superclass methods =>
      obtain ⟨hname, hsuperclass, hmethods⟩ := h
      obtain ⟨hsuperclassShown, hmethodsShown⟩ := List.forall_mem_append.mp hshown
      cases superclass with
      | none =>
          rw [Stmt.form, Form.stmt_class,
            FunctionDecl.functions_formAll hread methods hmethods hmethodsShown,
            ← hname.unlined_identifier]
          rfl
      | some superclass =>
          obtain ⟨id, name', rfl, hname'⟩ := hsuperclass
          rw [Stmt.form, Form.stmt, Expr.expr_form hread (.var id name') hname' hsuperclassShown,
            FunctionDecl.functions_formAll hread methods hmethods hmethodsShown,
            ← hname.unlined_identifier]
          rfl
  | ifThen condition thenBranch =>
      obtain ⟨hcondition, hthen⟩ := h
      obtain ⟨hconditionShown, hthenShown⟩ := List.forall_mem_append.mp hshown
      rw [Stmt.form, Form.stmt, Expr.expr_form hread condition hcondition hconditionShown,
        Stmt.stmt_form hread thenBranch hthen hthenShown]
      rfl
  | ifElse condition thenBranch elseBranch =>
      obtain ⟨hcondition, hthen, helse⟩ := h
      obtain ⟨hconditionShown, hbranchesShown⟩ := List.forall_mem_append.mp hshown
      obtain ⟨hthenShown, helseShown⟩ := List.forall_mem_append.mp hbranchesShown
      rw [Stmt.form, Form.stmt, Expr.expr_form hread condition hcondition hconditionShown,
        Stmt.stmt_form hread thenBranch hthen hthenShown,
        Stmt.stmt_form hread elseBranch helse helseShown]
      rfl
  | while_ condition body =>
      obtain ⟨hcondition, hbody⟩ := h
      obtain ⟨hconditionShown, hbodyShown⟩ := List.forall_mem_append.mp hshown
      rw [Stmt.form, Form.stmt, Expr.expr_form hread condition hcondition hconditionShown,
        Stmt.stmt_form hread body hbody hbodyShown]
      rfl
  | return_ keyword value =>
      obtain ⟨hkeyword, hvalue⟩ := h
      cases value with
      | none =>
          rw [Stmt.form, Form.stmt, ← hkeyword.unlined_keyword]
          rfl
      | some value =>
          rw [Stmt.form, Form.stmt, Expr.expr_form hread value hvalue hshown,
            ← hkeyword.unlined_keyword]
          rfl

theorem Stmt.stmts_formAll (hread : Numeral.ReadsBack read) (statements : List Stmt)
    (h : Stmt.LegibleAll statements)
    (hshown : ∀ value ∈ Stmt.constantsAll statements, value.Shown) :
    Form.stmts read (Stmt.formAll statements) =
      Stmt.eraseAll (Stmt.mapTokensAll Token.unlined statements) := by
  cases statements with
  | nil => rfl
  | cons s rest =>
      obtain ⟨hfirst, hrest⟩ := List.forall_mem_append.mp hshown
      rw [Stmt.formAll, Form.stmts, Stmt.stmt_form hread s h.1 hfirst,
        Stmt.stmts_formAll hread rest h.2 hrest]
      rfl

theorem FunctionDecl.function_forms (hread : Numeral.ReadsBack read) (declaration : FunctionDecl)
    (h : declaration.Legible) (hshown : ∀ value ∈ declaration.constants, value.Shown) :
    Form.function read declaration.forms = (declaration.mapTokens Token.unlined).erase := by
  cases declaration with
  | mk name parameters body =>
      obtain ⟨hname, hparameters, hbody⟩ := h
      rw [FunctionDecl.forms, Form.function, Stmt.stmts_formAll hread body hbody hshown,
        Form.parameters_lexical hparameters, ← hname.unlined_identifier]
      rfl

theorem FunctionDecl.functions_formAll (hread : Numeral.ReadsBack read)
    (methods : List FunctionDecl) (h : FunctionDecl.LegibleAll methods)
    (hshown : ∀ value ∈ FunctionDecl.constantsAll methods, value.Shown) :
    Form.functions read (FunctionDecl.formAll methods) =
      FunctionDecl.eraseAll (FunctionDecl.mapTokensAll Token.unlined methods) := by
  cases methods with
  | nil => rfl
  | cons d rest =>
      obtain ⟨hfirst, hrest⟩ := List.forall_mem_append.mp hshown
      rw [FunctionDecl.formAll, Form.functions, FunctionDecl.function_forms hread d h.1 hfirst,
        FunctionDecl.functions_formAll hread rest h.2 hrest]
      rfl

end

end

end Lox
