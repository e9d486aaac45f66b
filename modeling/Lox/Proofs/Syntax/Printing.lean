import Lox.Proofs.Numeral.Notation
import Lox.Proofs.Syntax.Form
import Lox.Proofs.Syntax.Legible

/-!
# The forms that trees are printed as

A tree is printed as the text of a form with the operator first.
-/

namespace Lox

/-! ## Forms of trees -/

/-- A list that begins with a word. -/
@[match_pattern] abbrev Form.list (head : String) (items : List Form) : Form :=
  .group "" (.word head :: items)

mutual

/-- The form of an expression. -/
def Expr.form : Expr → Form
  | .literal _ value => .word value.render
  | .grouping _ inner => .list "group" [inner.form]
  | .unary _ operator operand => .list operator.lexeme [operand.form]
  | .binary _ left operator right | .logical _ left operator right =>
      .list operator.lexeme [left.form, right.form]
  | .var _ name => .word name.lexeme
  | .assign _ name value => .list "=" [.word name.lexeme, value.form]
  | .call _ callee _ arguments => .list "call" (callee.form :: Expr.formAll arguments)
  | .get _ object name => .list "." [object.form, .word name.lexeme]
  | .set _ object name value =>
      .list "=" [.list "." [object.form, .word name.lexeme], value.form]
  | .super_ _ _ method => .list "super" [.word method.lexeme]
  | .this_ _ _ => .word "this"

/-- The forms of expressions. -/
def Expr.formAll : List Expr → List Form
  | [] => []
  | e :: rest => e.form :: Expr.formAll rest

end

mutual

/-- The form of a statement. -/
def Stmt.form : Stmt → Form
  | .expression value => .list ";" [value.form]
  | .print value => .list "print" [value.form]
  | .var name none => .list "var" [.word name.lexeme]
  | .var name (some value) => .list "var" [.word name.lexeme, value.form]
  | .block body => .list "block" (Stmt.formAll body)
  | .function declaration => .list "fun" declaration.forms
  | .class_ name none methods => .list "class" (.word name.lexeme :: FunctionDecl.formAll methods)
  | .class_ name (some superclass) methods =>
      .list "class"
        (.word name.lexeme :: .word "<" :: superclass.form :: FunctionDecl.formAll methods)
  | .ifThen condition thenBranch => .list "if" [condition.form, thenBranch.form]
  | .ifElse condition thenBranch elseBranch =>
      .list "if" [condition.form, thenBranch.form, elseBranch.form]
  | .while_ condition body => .list "while" [condition.form, body.form]
  | .return_ _ none => .list "return" []
  | .return_ _ (some value) => .list "return" [value.form]

/-- The forms of statements. -/
def Stmt.formAll : List Stmt → List Form
  | [] => []
  | s :: rest => s.form :: Stmt.formAll rest

/-- The forms of a function: its name with its parameters, and its statements. -/
def FunctionDecl.forms : FunctionDecl → List Form
  | ⟨name, parameters, body⟩ =>
      .group name.lexeme (parameters.map fun parameter => .word parameter.lexeme) ::
        Stmt.formAll body

/-- The forms of methods. -/
def FunctionDecl.formAll : List FunctionDecl → List Form
  | [] => []
  | d :: rest => .group "" d.forms :: FunctionDecl.formAll rest

end

/-! ## A tree is printed as the text of its form -/

@[simp] theorem spaced_nil : spaced [] = "" := rfl

@[simp] theorem spaced_cons (item : String) (rest : List String) :
    spaced (item :: rest) = " " ++ item ++ spaced rest := by
  simp [spaced]

namespace Form

@[simp] theorem text_word (word : String) : (Form.word word).text = word := by
  rw [text]

@[simp] theorem textAll_nil : textAll [] = [] := rfl

@[simp] theorem textAll_cons (f : Form) (rest : List Form) :
    textAll (f :: rest) = f.text :: textAll rest := by
  rw [textAll]

@[simp] theorem text_list (head : String) (items : List Form) :
    (list head items).text = "(" ++ head ++ spaced (textAll items) ++ ")" := by
  simp [text, intercalate_cons, String.append_assoc]

theorem textAll_words (tokens : List Token) :
    textAll (tokens.map fun token => .word token.lexeme) = tokens.map Token.lexeme := by
  induction tokens with
  | nil => rfl
  | cons token rest ih => simp [ih]

end Form

theorem FunctionDecl.spaced_forms (declaration : FunctionDecl) :
    spaced (Form.textAll declaration.forms) =
      " " ++ " ".intercalate (Form.textAll declaration.forms) := by
  obtain ⟨name, parameters, body⟩ := declaration
  simp [FunctionDecl.forms, Form.intercalate_cons, String.append_assoc]

theorem append_close_blank (text : String) : text ++ ") " = text ++ ")" ++ " " := by
  rw [String.append_assoc]
  rfl

mutual

theorem Expr.text_form (e : Expr) : e.form.text = e.render := by
  cases e with
  | literal id value => simp [Expr.form, Expr.render]
  | grouping id inner =>
      simp [Expr.form, Expr.render, Expr.text_form inner, ← String.append_assoc]
  | unary id operator operand =>
      simp [Expr.form, Expr.render, Expr.text_form operand, ← String.append_assoc]
  | binary id left operator right =>
      simp [Expr.form, Expr.render, Expr.text_form left, Expr.text_form right,
        ← String.append_assoc]
  | logical id left operator right =>
      simp [Expr.form, Expr.render, Expr.text_form left, Expr.text_form right,
        ← String.append_assoc]
  | var id name => simp [Expr.form, Expr.render]
  | assign id name value =>
      simp [Expr.form, Expr.render, Expr.text_form value, ← String.append_assoc]
  | call id callee paren arguments =>
      simp [Expr.form, Expr.render, Expr.text_form callee, Expr.textAll_form arguments,
        ← String.append_assoc]
  | get id object name =>
      simp [Expr.form, Expr.render, Expr.text_form object, ← String.append_assoc]
  | set id object name value =>
      simp [Expr.form, Expr.render, Expr.text_form object, Expr.text_form value,
        ← String.append_assoc, append_close_blank]
  | super_ id keyword method => simp [Expr.form, Expr.render, ← String.append_assoc]
  | this_ id keyword => simp [Expr.form, Expr.render]

theorem Expr.textAll_form (es : List Expr) :
    Form.textAll (Expr.formAll es) = Expr.renderAll es := by
  cases es with
  | nil => rfl
  | cons e rest => simp [Expr.formAll, Expr.renderAll, Expr.text_form e, Expr.textAll_form rest]

end

mutual

theorem Stmt.text_form (s : Stmt) : s.form.text = s.render := by
  cases s with
  | expression value => simp [Stmt.form, Stmt.render, Expr.text_form, ← String.append_assoc]
  | print value => simp [Stmt.form, Stmt.render, Expr.text_form, ← String.append_assoc]
  | var name initializer =>
      cases initializer with
      | none => simp [Stmt.form, Stmt.render, ← String.append_assoc]
      | some value => simp [Stmt.form, Stmt.render, Expr.text_form, ← String.append_assoc]
  | block body => simp [Stmt.form, Stmt.render, Stmt.textAll_form body]
  | function declaration =>
      simp [Stmt.form, Stmt.render, FunctionDecl.spaced_forms, FunctionDecl.text_forms declaration,
        ← String.append_assoc]
  | class_ name superclass methods =>
      cases superclass with
      | none =>
          simp [Stmt.form, Stmt.render, FunctionDecl.textAll_form methods, ← String.append_assoc]
      | some superclass =>
          simp [Stmt.form, Stmt.render, Expr.text_form, FunctionDecl.textAll_form methods,
            ← String.append_assoc]
  | ifThen condition thenBranch =>
      simp [Stmt.form, Stmt.render, Expr.text_form, Stmt.text_form thenBranch,
        ← String.append_assoc]
  | ifElse condition thenBranch elseBranch =>
      simp [Stmt.form, Stmt.render, Expr.text_form, Stmt.text_form thenBranch,
        Stmt.text_form elseBranch, ← String.append_assoc]
  | while_ condition body =>
      simp [Stmt.form, Stmt.render, Expr.text_form, Stmt.text_form body, ← String.append_assoc]
  | return_ keyword value =>
      cases value with
      | none => simp [Stmt.form, Stmt.render]
      | some value => simp [Stmt.form, Stmt.render, Expr.text_form, ← String.append_assoc]

theorem Stmt.textAll_form (statements : List Stmt) :
    Form.textAll (Stmt.formAll statements) = Stmt.renderAll statements := by
  cases statements with
  | nil => rfl
  | cons s rest => simp [Stmt.formAll, Stmt.renderAll, Stmt.text_form s, Stmt.textAll_form rest]

theorem FunctionDecl.text_forms (declaration : FunctionDecl) :
    " ".intercalate (Form.textAll declaration.forms) = declaration.render := by
  obtain ⟨name, parameters, body⟩ := declaration
  simp [FunctionDecl.forms, FunctionDecl.render, Form.text, Form.textAll_words,
    Form.intercalate_cons, Stmt.textAll_form body, ← String.append_assoc]

theorem FunctionDecl.textAll_form (methods : List FunctionDecl) :
    Form.textAll (FunctionDecl.formAll methods) = FunctionDecl.renderAll methods := by
  cases methods with
  | nil => rfl
  | cons d rest =>
      simp [FunctionDecl.formAll, FunctionDecl.renderAll, Form.text, FunctionDecl.text_forms d,
        FunctionDecl.textAll_form rest]

end

/-! ## The forms of trees are legal -/

theorem not_delimiter_of_wordChar {c : Char} (h : isWordChar c) : isDelimiter c = false := by
  rw [Bool.eq_false_iff]
  intro hdelimiter
  simp only [isDelimiter, Bool.or_eq_true, beq_iff_eq] at hdelimiter
  rcases hdelimiter with (rfl | rfl) | rfl <;> exact absurd h (by decide)

theorem isWordChar_of_wordStart {c : Char} (h : isWordStart c) : isWordChar c := by
  simp only [isWordStart, isWordChar, Char.isAlphanum, Bool.or_eq_true] at h ⊢
  tauto

theorem IsWord.of_characters {word : String} {c : Char} {rest : List Char}
    (htext : word.toList = c :: rest) (h : ∀ d ∈ c :: rest, isDelimiter d = false) :
    IsWord word := by
  refine ⟨fun hempty => ?_, by rwa [Undelimited, htext]⟩
  rw [hempty] at htext
  cases htext

theorem IsName.isWord {word : String} (h : IsName word) : IsWord word := by
  obtain ⟨-, c, rest, htext, hstart, hrest⟩ := h
  exact .of_characters htext (List.forall_mem_cons.mpr
    ⟨not_delimiter_of_wordChar (isWordChar_of_wordStart hstart),
      fun d hd => not_delimiter_of_wordChar (hrest d hd)⟩)

theorem isWord_pointed {x : Float} {negative : Bool} {m : Numeral.Magnitude}
    (h : Numeral.Double.ofFloat x = .finite negative m) : IsWord (Numeral.pointed x) := by
  obtain ⟨c, rest, htext, hc, hrest⟩ := Numeral.pointed_characters h
  have hdigit {d : Char} (hd : d.isDigit) : isDelimiter d = false :=
    not_delimiter_of_wordChar (by simp [isWordChar, Char.isAlphanum, hd])
  refine .of_characters htext (List.forall_mem_cons.mpr ⟨?_, fun d hd => ?_⟩)
  · rcases hc with rfl | hc
    · rfl
    · exact hdigit hc
  · rcases hrest d hd with hd | rfl
    · exact hdigit hd
    · rfl

theorem isWord_render {value : Literal} (h : value.Numeric) (hshown : value.Shown) :
    IsWord value.render := by
  cases value with
  | number value =>
      obtain ⟨negative, m, hdouble⟩ := Literal.finite_of_shown h hshown
      exact isWord_pointed hdouble
  | string contents => exact hshown.elim
  | bool value => cases value <;> decide
  | nil => decide

theorem isWord_operator {operators : List Category} {operator : Token}
    (hwords : ∀ category ∈ operators, category.spelling?.any (IsWord ·))
    (h : operator.category ∈ operators ∧ operator.Lexical) : IsWord operator.lexeme := by
  obtain ⟨word, hspelling, hword⟩ := (Option.any_eq_true _ _).mp (hwords _ h.1)
  rw [h.2.lexeme_eq hspelling]
  exact of_decide_eq_true hword

namespace Form

theorem legal_word {text : String} (h : IsWord text) : (word text).Legal := h

theorem legal_list {head : String} {items : List Form} (hhead : IsWord head)
    (hitems : LegalAll items) : (list head items).Legal :=
  ⟨by decide, hhead, hitems⟩

theorem legalAll_words {names : List Token} (h : Token.NameAll Token.Lexical names) :
    LegalAll (names.map fun name => .word name.lexeme) := by
  induction names with
  | nil => trivial
  | cons name rest ih =>
      obtain ⟨hname, hrest⟩ := List.forall_mem_cons.mp h
      exact ⟨hname.isName.isWord, ih hrest⟩

end Form

mutual

theorem Expr.form_legal (e : Expr) (h : e.Legible)
    (hshown : ∀ value ∈ e.constants, value.Shown) : e.form.Legal := by
  cases e with
  | literal id value => exact isWord_render h (hshown value List.mem_cons_self)
  | grouping id inner =>
      exact Form.legal_list (by decide) ⟨Expr.form_legal inner h hshown, trivial⟩
  | unary id operator operand =>
      exact Form.legal_list (isWord_operator (by decide) h.1)
        ⟨Expr.form_legal operand h.2 hshown, trivial⟩
  | binary id left operator right =>
      obtain ⟨hleft, hoperator, hright⟩ := h
      obtain ⟨hleftShown, hrightShown⟩ := List.forall_mem_append.mp hshown
      exact Form.legal_list (isWord_operator (by decide) hoperator)
        ⟨Expr.form_legal left hleft hleftShown, Expr.form_legal right hright hrightShown, trivial⟩
  | logical id left operator right =>
      obtain ⟨hleft, hoperator, hright⟩ := h
      obtain ⟨hleftShown, hrightShown⟩ := List.forall_mem_append.mp hshown
      exact Form.legal_list (isWord_operator (by decide) hoperator)
        ⟨Expr.form_legal left hleft hleftShown, Expr.form_legal right hright hrightShown, trivial⟩
  | var id name => exact (Token.Is.isName h).isWord
  | assign id name value =>
      exact Form.legal_list (by decide)
        ⟨h.1.isName.isWord, Expr.form_legal value h.2 hshown, trivial⟩
  | call id callee paren arguments =>
      obtain ⟨hcallee, -, harguments⟩ := h
      obtain ⟨hcalleeShown, hargumentsShown⟩ := List.forall_mem_append.mp hshown
      exact Form.legal_list (by decide)
        ⟨Expr.form_legal callee hcallee hcalleeShown,
          Expr.formAll_legal arguments harguments hargumentsShown⟩
  | get id object name =>
      exact Form.legal_list (by decide)
        ⟨Expr.form_legal object h.1 hshown, h.2.isName.isWord, trivial⟩
  | set id object name value =>
      obtain ⟨hobject, hname, hvalue⟩ := h
      obtain ⟨hobjectShown, hvalueShown⟩ := List.forall_mem_append.mp hshown
      have hproperty : (Form.list "." [object.form, .word name.lexeme]).Legal :=
        Form.legal_list (by decide)
          ⟨Expr.form_legal object hobject hobjectShown, hname.isName.isWord, trivial⟩
      exact Form.legal_list (by decide)
        ⟨hproperty, Expr.form_legal value hvalue hvalueShown, trivial⟩
  | super_ id keyword method =>
      exact Form.legal_list (by decide) ⟨h.2.isName.isWord, trivial⟩
  | this_ id keyword => exact Form.legal_word (by decide)

theorem Expr.formAll_legal (es : List Expr) (h : Expr.LegibleAll es)
    (hshown : ∀ value ∈ Expr.constantsAll es, value.Shown) :
    Form.LegalAll (Expr.formAll es) := by
  cases es with
  | nil => trivial
  | cons e rest =>
      obtain ⟨hfirst, hrest⟩ := List.forall_mem_append.mp hshown
      exact ⟨Expr.form_legal e h.1 hfirst, Expr.formAll_legal rest h.2 hrest⟩

end

mutual

theorem Stmt.form_legal (s : Stmt) (h : s.Legible)
    (hshown : ∀ value ∈ s.constants, value.Shown) : s.form.Legal := by
  cases s with
  | expression value =>
      exact Form.legal_list (by decide) ⟨Expr.form_legal value h hshown, trivial⟩
  | print value =>
      exact Form.legal_list (by decide) ⟨Expr.form_legal value h hshown, trivial⟩
  | var name initializer =>
      obtain ⟨hname, hinitializer⟩ := h
      cases initializer with
      | none => exact Form.legal_list (by decide) ⟨hname.isName.isWord, trivial⟩
      | some value =>
          exact Form.legal_list (by decide)
            ⟨hname.isName.isWord, Expr.form_legal value hinitializer hshown, trivial⟩
  | block body => exact Form.legal_list (by decide) (Stmt.formAll_legal body h hshown)
  | function declaration =>
      exact Form.legal_list (by decide) (FunctionDecl.forms_legal declaration h hshown)
  | class_ name superclass methods =>
      obtain ⟨hname, hsuperclass, hmethods⟩ := h
      obtain ⟨hsuperclassShown, hmethodsShown⟩ := List.forall_mem_append.mp hshown
      have hforms := FunctionDecl.formAll_legal methods hmethods hmethodsShown
      cases superclass with
      | none => exact Form.legal_list (by decide) ⟨hname.isName.isWord, hforms⟩
      | some superclass =>
          obtain ⟨id, name', rfl, hname'⟩ := hsuperclass
          exact Form.legal_list (by decide)
            ⟨hname.isName.isWord, Form.legal_word (by decide),
              Expr.form_legal (.var id name') hname' hsuperclassShown, hforms⟩
  | ifThen condition thenBranch =>
      obtain ⟨hcondition, hthen⟩ := h
      obtain ⟨hconditionShown, hthenShown⟩ := List.forall_mem_append.mp hshown
      exact Form.legal_list (by decide)
        ⟨Expr.form_legal condition hcondition hconditionShown,
          Stmt.form_legal thenBranch hthen hthenShown, trivial⟩
  | ifElse condition thenBranch elseBranch =>
      obtain ⟨hcondition, hthen, helse⟩ := h
      obtain ⟨hconditionShown, hbranchesShown⟩ := List.forall_mem_append.mp hshown
      obtain ⟨hthenShown, helseShown⟩ := List.forall_mem_append.mp hbranchesShown
      exact Form.legal_list (by decide)
        ⟨Expr.form_legal condition hcondition hconditionShown,
          Stmt.form_legal thenBranch hthen hthenShown,
          Stmt.form_legal elseBranch helse helseShown, trivial⟩
  | while_ condition body =>
      obtain ⟨hcondition, hbody⟩ := h
      obtain ⟨hconditionShown, hbodyShown⟩ := List.forall_mem_append.mp hshown
      exact Form.legal_list (by decide)
        ⟨Expr.form_legal condition hcondition hconditionShown,
          Stmt.form_legal body hbody hbodyShown, trivial⟩
  | return_ keyword value =>
      cases value with
      | none => exact Form.legal_list (by decide) trivial
      | some value =>
          exact Form.legal_list (by decide) ⟨Expr.form_legal value h.2 hshown, trivial⟩

theorem Stmt.formAll_legal (statements : List Stmt) (h : Stmt.LegibleAll statements)
    (hshown : ∀ value ∈ Stmt.constantsAll statements, value.Shown) :
    Form.LegalAll (Stmt.formAll statements) := by
  cases statements with
  | nil => trivial
  | cons s rest =>
      obtain ⟨hfirst, hrest⟩ := List.forall_mem_append.mp hshown
      exact ⟨Stmt.form_legal s h.1 hfirst, Stmt.formAll_legal rest h.2 hrest⟩

theorem FunctionDecl.forms_legal (declaration : FunctionDecl) (h : declaration.Legible)
    (hshown : ∀ value ∈ declaration.constants, value.Shown) :
    Form.LegalAll declaration.forms := by
  cases declaration with
  | mk name parameters body =>
      obtain ⟨hname, hparameters, hbody⟩ := h
      exact ⟨⟨hname.isName.isWord.undelimited, Form.legalAll_words hparameters⟩,
        Stmt.formAll_legal body hbody hshown⟩

theorem FunctionDecl.formAll_legal (methods : List FunctionDecl)
    (h : FunctionDecl.LegibleAll methods)
    (hshown : ∀ value ∈ FunctionDecl.constantsAll methods, value.Shown) :
    Form.LegalAll (FunctionDecl.formAll methods) := by
  cases methods with
  | nil => trivial
  | cons d rest =>
      obtain ⟨hfirst, hrest⟩ := List.forall_mem_append.mp hshown
      exact ⟨⟨by decide, FunctionDecl.forms_legal d h.1 hfirst⟩,
        FunctionDecl.formAll_legal rest h.2 hrest⟩

end

end Lox
