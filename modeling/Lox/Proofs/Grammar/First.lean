import Lox.Proofs.Grammar.Derivation

/-!
# The first token of a phrase

A parser decides what to read by the next token. These are the tokens that each kind of phrase can
begin with, and the phrases that begin with some token.
-/

namespace Lox.Grammar

/-- Whether a primary expression can begin with a token of this category. -/
def beginsPrimary : Category → Bool
  | .number | .string | .identifier | .keyword .true_ | .keyword .false_ | .keyword .nil_
  | .keyword .this_ | .keyword .super_ | .symbol .leftParen => true
  | _ => false

/-- Whether an expression can begin with a token of this category. -/
def beginsExpression : Category → Bool
  | .symbol .bang | .symbol .minus => true
  | category => beginsPrimary category

/-- Whether a plain statement can begin with a token of this category. -/
def beginsPlain : Category → Bool
  | .keyword .for_ | .keyword .if_ | .keyword .print_ | .keyword .return_ | .keyword .while_
  | .symbol .leftBrace => true
  | category => beginsExpression category

/-- Whether a declaration can begin with a token of this category. -/
def beginsDeclaration : Category → Bool
  | .keyword .class_ | .keyword .fun_ | .keyword .var_ => true
  | category => beginsPlain category

/-- The categories that a phrase can begin with, if it has any token. -/
def Phrase.begins : Phrase → Category → Bool
  | expression .call | expression .primary => beginsPrimary
  | expression _ | optionalExpression | arguments | argumentList => beginsExpression
  | statement _ => beginsPlain
  | declaration | declarations => beginsDeclaration
  | classDeclaration => (· = .keyword .class_)
  | variableDeclaration => (· = .keyword .var_)
  | functions | function | parameters | parameterList => (· = .identifier)
  | block => (· = .symbol .leftBrace)
  | forInitializer => fun category =>
      category = .symbol .semicolon || category = .keyword .var_ || beginsExpression category

/-- Whether a phrase may have no tokens. -/
def Phrase.nullable : Phrase → Bool
  | declarations | functions | parameterList | optionalExpression | argumentList => true
  | _ => false

theorem beginsExpression_of_primary {category : Category} (h : beginsPrimary category = true) :
    beginsExpression category = true := by
  unfold beginsExpression
  split
  · rfl
  · rfl
  · exact h

theorem beginsPlain_of_expression {category : Category} (h : beginsExpression category = true) :
    beginsPlain category = true := by
  unfold beginsPlain
  split <;> first | rfl | exact h

theorem beginsDeclaration_of_plain {category : Category} (h : beginsPlain category = true) :
    beginsDeclaration category = true := by
  unfold beginsDeclaration
  split <;> first | rfl | exact h

/-- The tokens of a phrase begin with one of its first categories, or there are none. -/
def BeginsWell (phrase : Phrase) (tokens : List Token) : Prop :=
  (∃ token rest, tokens = token :: rest ∧ phrase.begins token.category = true) ∨
    (tokens = [] ∧ phrase.nullable = true)

namespace BeginsWell

variable {phrase wider : Phrase} {tokens : List Token}

theorem cons {token : Token} {category : Category} (hcategory : token.category = category)
    (hbegins : phrase.begins category = true) (rest : List Token) :
    BeginsWell phrase (token :: rest) :=
  .inl ⟨token, rest, rfl, by rw [hcategory, hbegins]⟩

theorem exists_cons (h : BeginsWell phrase tokens) (hnot : phrase.nullable = false) :
    ∃ token rest, tokens = token :: rest ∧ phrase.begins token.category = true := by
  rcases h with h | ⟨-, h⟩
  · exact h
  · rw [hnot] at h
    cases h

theorem append (h : BeginsWell phrase tokens) (hnot : phrase.nullable = false)
    (hwider : ∀ category, phrase.begins category = true → wider.begins category = true)
    (rest : List Token) : BeginsWell wider (tokens ++ rest) := by
  obtain ⟨token, more, rfl, hbegins⟩ := h.exists_cons hnot
  exact .inl ⟨token, more ++ rest, rfl, hwider _ hbegins⟩

theorem widen (h : BeginsWell phrase tokens) (hnot : phrase.nullable = false)
    (hwider : ∀ category, phrase.begins category = true → wider.begins category = true) :
    BeginsWell wider tokens := by
  simpa using h.append hnot hwider []

end BeginsWell

/-- A looser layer begins with at least what a tighter one begins with. -/
theorem begins_of_inner {layer inner : Layer} (h : layer.inner = some inner) (category : Category)
    (hbegins : (Phrase.expression inner).begins category = true) :
    (Phrase.expression layer).begins category = true := by
  cases layer <;> cases h <;> first | exact hbegins | exact beginsExpression_of_primary hbegins

theorem Derives.beginsWell {nearest : Bool} {phrase : Phrase} {tokens : List Token}
    {tree : phrase.Tree} (h : Derives nearest phrase tokens tree) : BeginsWell phrase tokens := by
  induction h with
  | noDeclarations | noFunctions | noParameters | noExpression | noArguments =>
      exact .inr ⟨rfl, rfl⟩
  | moreDeclarations _ _ ih | moreFunctions _ _ ih =>
      refine ih.append rfl (fun category h => ?_) _
      exact h
  | classDeclaration _ ih =>
      exact ih.widen rfl fun category h => by simp_all [Phrase.begins, beginsDeclaration]
  | variableDeclaration _ ih =>
      exact ih.widen rfl fun category h => by simp_all [Phrase.begins, beginsDeclaration]
  | functionDeclaration hkeyword | class_ hkeyword | subclass hkeyword | variable_ hkeyword
  | initializedVariable hkeyword | print hkeyword | return_ hkeyword | ifThen hkeyword
  | ifElse hkeyword | while_ hkeyword | for_ hkeyword | block hkeyword | function hkeyword
  | lastParameter hkeyword | moreParameters hkeyword | noInitializer hkeyword | assign hkeyword
  | this_ hkeyword | name hkeyword | grouping hkeyword | super_ hkeyword =>
      exact .cons hkeyword rfl _
  | statement _ ih => exact ih.widen rfl fun _ => beginsDeclaration_of_plain
  | someParameters _ _ ih => exact ih.widen rfl fun _ h => h
  | expressionStatement _ _ ih =>
      refine ih.append rfl (fun category h => ?_) _
      exact beginsPlain_of_expression h
  | blockStatement _ ih =>
      exact ih.widen rfl fun category h => by simp_all [Phrase.begins, beginsPlain]
  | variableInitializer _ ih =>
      exact ih.widen rfl fun category h => by simp_all [Phrase.begins]
  | expressionInitializer _ _ ih =>
      exact ih.append rfl (fun category h => by simp_all [Phrase.begins]) _
  | someExpression _ ih | someArguments _ _ ih | lastArgument _ ih =>
      exact ih.widen rfl fun _ h => h
  | set _ _ _ _ _ ih =>
      refine ih.append rfl (fun category h => ?_) _
      exact beginsExpression_of_primary h
  | tighter hinner _ ih => exact ih.widen rfl (begins_of_inner hinner)
  | infix_ _ _ _ _ ih => exact ih.append rfl (fun _ h => h) _
  | unary hoperator _ _ =>
      rcases hoperator with h | h
      · exact .cons h rfl _
      · exact .cons h rfl _
  | call _ _ _ _ ih | property _ _ _ ih => exact ih.append rfl (fun _ h => h) _
  | moreArguments _ _ _ ih => exact ih.append rfl (fun _ h => h) _
  | number hkind | string hkind | true_ hkind | false_ hkind | nil_ hkind =>
      exact .cons (congrArg Kind.category hkind) rfl _

end Lox.Grammar
