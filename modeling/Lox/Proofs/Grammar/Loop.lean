import Lox.Proofs.Grammar.Parsing
import Lox.Proofs.Syntax.Shape
import Mathlib.Data.List.TakeWhile
import Mathlib.Data.Option.Basic

/-!
# Loops written out

A `for` loop can be written without `for`: its initializer in a block with a `while` loop, whose body
is a block of the statement and the increment. Tokens that can be read on their own as the clauses of
a loop make up both, and both are read as the same tree.
-/

namespace Lox.Grammar

/-! ## Pieces of programs -/

/-- The tokens are read as an expression, up to the end and without errors. -/
def IsExpression (tokens : List Token) : Prop :=
  ∃ nextId tree after,
    readExpression (.standard tokens) (.start tokens nextId) = (.ok tree, after) ∧
      after.rest = [] ∧ after.errors = []

/-- The tokens are read as one declaration or statement with a property, without errors. -/
def IsSingle (property : Stmt → Prop) (tokens : List Token) : Prop :=
  ∃ nextId tree, (parse tokens nextId).errors = [] ∧ (parse tokens nextId).statements = [tree] ∧
    property tree

/-- A variable declaration or an expression statement, which a `for` loop can begin with. -/
def IsInitializer : Stmt → Prop
  | .var _ _ | .expression _ => True
  | _ => False

/-- A token of a category. -/
abbrev TokenOf (category : Category) : Type :=
  { token : Token // token.category = category }

/-- The tokens of the clauses of a loop, of which all but the body may be left out. An initializer
ends with its semicolon. -/
structure Clauses where
  initializer : Option (List Token)
  condition : Option (List Token)
  increment : Option (List Token)
  body : List Token

/-- The other tokens of a `for` loop. The semicolon `first` is there if no initializer is. -/
structure ForMarks where
  for_ : TokenOf (.keyword .for_)
  left : TokenOf (.symbol .leftParen)
  first : TokenOf (.symbol .semicolon)
  second : TokenOf (.symbol .semicolon)
  right : TokenOf (.symbol .rightParen)

/-- The other tokens of a loop that is written out with `while`. There are braces and `true` where
they are needed. -/
structure WhileMarks where
  outerLeft : TokenOf (.symbol .leftBrace)
  while_ : TokenOf (.keyword .while_)
  left : TokenOf (.symbol .leftParen)
  true_ : TokenOf (.keyword .true_)
  right : TokenOf (.symbol .rightParen)
  innerLeft : TokenOf (.symbol .leftBrace)
  semicolon : TokenOf (.symbol .semicolon)
  innerRight : TokenOf (.symbol .rightBrace)
  outerRight : TokenOf (.symbol .rightBrace)

namespace Clauses

/-- The clauses as a `for` loop. -/
def asFor (clauses : Clauses) (marks : ForMarks) : List Token :=
  marks.for_.val :: marks.left.val :: (clauses.initializer.getD [marks.first.val] ++
    (clauses.condition.getD [] ++ marks.second.val ::
      (clauses.increment.getD [] ++ marks.right.val :: clauses.body)))

/-- The body, in a block with the increment if there is one. -/
def repeated (clauses : Clauses) (marks : WhileMarks) : List Token :=
  match clauses.increment with
  | some increment => marks.innerLeft.val ::
      (clauses.body ++ (increment ++ [marks.semicolon.val]) ++ [marks.innerRight.val])
  | none => clauses.body

/-- The `while` loop. -/
def inner (clauses : Clauses) (marks : WhileMarks) : List Token :=
  marks.while_.val :: marks.left.val ::
    (clauses.condition.getD [marks.true_.val] ++ marks.right.val :: clauses.repeated marks)

/-- The clauses as a `while` loop, in a block with the initializer if there is one. -/
def asWhile (clauses : Clauses) (marks : WhileMarks) : List Token :=
  match clauses.initializer with
  | some initializer => marks.outerLeft.val ::
      (initializer ++ clauses.inner marks ++ [marks.outerRight.val])
  | none => clauses.inner marks

/-- Each clause is read on its own without errors. -/
structure Readable (clauses : Clauses) : Prop where
  initializer : ∀ tokens ∈ clauses.initializer, IsSingle IsInitializer tokens
  condition : ∀ tokens ∈ clauses.condition, IsExpression tokens
  increment : ∀ tokens ∈ clauses.increment, IsExpression tokens
  body : IsSingle (fun tree => tree.isDeclaration = false) clauses.body

end Clauses

/-! ## Their derivations -/

section

variable {tokens : List Token} {nearest : Bool}

theorem IsExpression.derives (h : IsExpression tokens)
    (hopen : ∀ token ∈ tokens, token.category ≠ .eof) :
    ∃ tree, Derives true (.expression .assignment) tokens tree := by
  obtain ⟨nextId, tree, after, hread, hrest, herrors⟩ := h
  have hending : (Setting.standard tokens).ending.category = .eof := endMarker_category tokens
  have hrun : result (Rule.run (fuelFor (State.start tokens nextId).rest.length) .expression)
      (.standard tokens) (.start tokens nextId) = .ok tree after := by
    rw [readExpression] at hread
    rw [result]
    split at hread <;> simp_all
  obtain ⟨read, hsplit, hderives⟩ := Rule.run_sound hending rfl _ _ _ _ _ hrun herrors
  rw [hrest, List.append_nil] at hsplit
  have hall : ∀ token ∈ tokens, decide (token.category ≠ .eof) = true :=
    fun token htoken => decide_eq_true (hopen token htoken)
  have hwhole : tokens = read := by
    rw [← hsplit]
    exact (List.takeWhile_eq_self_iff.mpr hall).symm
  exact ⟨tree.erase, hwhole ▸ hderives⟩

theorem IsSingle.derives {property : Stmt → Prop} (h : IsSingle property tokens)
    (hopen : ∀ token ∈ tokens, token.category ≠ .eof) :
    ∃ tree, property tree ∧ Derives true .declaration tokens tree.erase := by
  obtain ⟨nextId, tree, herrors, htree, hproperty⟩ := h
  have hall : ∀ token ∈ tokens, decide (token.category ≠ .eof) = true :=
    fun token htoken => decide_eq_true (hopen token htoken)
  have hderives := parse_derives herrors
  rw [htree, List.takeWhile_eq_self_iff.mpr hall] at hderives
  cases hderives with
  | moreDeclarations hfirst hrest =>
      cases hrest
      exact ⟨tree, hproperty, by rwa [List.append_nil]⟩

/-- A declaration that a loop can begin with is an initializer of a loop. -/
theorem Derives.forInitializer {tree : Stmt} (h : Derives nearest .declaration tokens tree)
    (hinitializer : IsInitializer tree) : Derives nearest .forInitializer tokens (some tree) := by
  cases h with
  | classDeclaration hclass => cases hclass <;> exact hinitializer.elim
  | functionDeclaration => exact hinitializer.elim
  | variableDeclaration hvariable => exact .variableInitializer hvariable
  | statement hstatement =>
      cases hstatement with
      | expressionStatement hvalue hsemicolon => exact .expressionInitializer hvalue hsemicolon
      | @for_ _ _ _ _ _ _ _ _ initializer =>
          cases initializer <;> exact hinitializer.elim
      | _ => exact hinitializer.elim

/-- A declaration that is neither of a name nor of a class is a statement. -/
theorem Derives.plain {tree : Stmt} (h : Derives nearest .declaration tokens tree)
    (hplain : tree.isDeclaration = false) :
    ∃ dangling, Derives nearest (.statement dangling) tokens tree := by
  cases h with
  | classDeclaration hclass => cases hclass <;> cases hplain
  | functionDeclaration => cases hplain
  | variableDeclaration hvariable => cases hvariable <;> cases hplain
  | statement hstatement => exact ⟨_, hstatement⟩

/-- An initializer of a loop is a declaration by itself. -/
theorem Derives.declaration_of_forInitializer {tree : Stmt}
    (h : Derives nearest .forInitializer tokens (some tree)) :
    Derives nearest .declaration tokens tree := by
  cases h with
  | variableInitializer hvariable => exact .variableDeclaration hvariable
  | expressionInitializer hvalue hsemicolon =>
      exact .statement (.expressionStatement hvalue hsemicolon)

end

theorem IsInitializer.erase {tree : Stmt} (h : IsInitializer tree) : IsInitializer tree.erase := by
  cases tree <;> exact h

theorem isDeclaration_erase (tree : Stmt) : tree.erase.isDeclaration = tree.isDeclaration := by
  cases tree <;> rfl

/-! ## Both loops -/

/-- The word `true` is an expression. -/
theorem derives_true (word : TokenOf (.keyword .true_)) :
    Derives true (.expression .assignment) [word.val] (.literal 0 (.bool true)) := by
  obtain ⟨word, hword⟩ := word
  have hkind : word.kind = .keyword .true_ := by
    cases hkind : word.kind <;> simp_all [Token.category, Kind.category]
  have hunary : Derives true (.expression (Layer.ofLevel 7)) [word] (.literal 0 (.bool true)) :=
    .tighter rfl (.tighter rfl (.true_ hkind))
  exact .tighter rfl (hunary.ofLevel_le (Nat.le_refl 1) (by decide) (Nat.le_refl 7))

namespace Clauses

variable {clauses : Clauses}

/-- The trees of the clauses, of those that are there. -/
structure Trees (clauses : Clauses) where
  initializer : Option Stmt
  condition : Option Expr
  increment : Option Expr
  body : Stmt
  dangling : Bool
  initializer_derives : Option.Rel (fun tokens tree => Derives true .forInitializer tokens (some tree))
    clauses.initializer initializer
  condition_derives : Option.Rel (Derives true (.expression .assignment)) clauses.condition condition
  increment_derives : Option.Rel (Derives true (.expression .assignment)) clauses.increment increment
  body_derives : Derives true (.statement dangling) clauses.body body

/-- The tree of the loop. -/
def Trees.loop (trees : clauses.Trees) : Stmt :=
  desugarFor trees.initializer trees.condition trees.increment trees.body

theorem Trees.asFor_derives (trees : clauses.Trees) (marks : ForMarks) :
    Derives true .declarations (clauses.asFor marks) [trees.loop] := by
  obtain ⟨first, test, step, tokens⟩ := clauses
  obtain ⟨initializer, condition, increment, body, dangling, hfirst, htest, hstep, hbody⟩ := trees
  have hinitializer : Derives true .forInitializer (first.getD [marks.first.val]) initializer := by
    cases hfirst with
    | some h => exact h
    | none => exact .noInitializer marks.first.property
  have hclause {tokens : Option (List Token)} {tree : Option Expr}
      (h : Option.Rel (Derives true (.expression .assignment)) tokens tree) :
      Derives true .optionalExpression (tokens.getD []) tree := by
    cases h with
    | some h => exact .someExpression h
    | none => exact .noExpression
  have hloop := Derives.for_ marks.for_.property marks.left.property hinitializer (hclause htest)
    marks.second.property (hclause hstep) marks.right.property hbody
  have hprogram := Derives.moreDeclarations (.statement hloop) .noDeclarations
  rwa [List.append_nil] at hprogram

/-- The `while` loop is the `for` loop without its initializer. -/
theorem Trees.inner_derives (trees : clauses.Trees) (marks : WhileMarks) :
    ∃ dangling, Derives true (.statement dangling) (clauses.inner marks)
      (desugarFor none trees.condition trees.increment trees.body) := by
  obtain ⟨first, test, step, tokens⟩ := clauses
  obtain ⟨initializer, condition, increment, body, dangling, hfirst, htest, hstep, hbody⟩ := trees
  have hcondition : Derives true (.expression .assignment) (test.getD [marks.true_.val])
      (condition.getD (.literal 0 (.bool true))) := by
    cases htest with
    | some h => exact h
    | none => exact derives_true marks.true_
  cases hstep with
  | some h =>
      have hincrement := Derives.moreDeclarations
        (.statement (.expressionStatement h marks.semicolon.property)) .noDeclarations
      have hblock := Derives.moreDeclarations (.statement hbody) hincrement
      rw [List.append_nil] at hblock
      exact ⟨false, .while_ marks.while_.property marks.left.property hcondition
        marks.right.property (.blockStatement
          (.block marks.innerLeft.property hblock marks.innerRight.property))⟩
  | none =>
      exact ⟨dangling, .while_ marks.while_.property marks.left.property hcondition
        marks.right.property hbody⟩

theorem Trees.asWhile_derives (trees : clauses.Trees) (marks : WhileMarks) :
    Derives true .declarations (clauses.asWhile marks) [trees.loop] := by
  have hloop : Derives true .declarations (clauses.inner marks)
      [desugarFor none trees.condition trees.increment trees.body] := by
    obtain ⟨dangling, hinner⟩ := trees.inner_derives marks
    have hprogram := Derives.moreDeclarations (.statement hinner) .noDeclarations
    rwa [List.append_nil] at hprogram
  rw [asWhile, loop]
  have hfirst := trees.initializer_derives
  generalize clauses.initializer = first at hfirst
  generalize trees.initializer = initializer at hfirst
  cases hfirst with
  | some h =>
      have hblock := Derives.moreDeclarations h.declaration_of_forInitializer hloop
      have hprogram := Derives.moreDeclarations (.statement (.blockStatement
        (.block marks.outerLeft.property hblock marks.outerRight.property))) .noDeclarations
      rwa [List.append_nil] at hprogram
  | none => exact hloop

/-- A clause that is there has a tree if its tokens have one. -/
theorem exists_rel {β : Type} {r : List Token → β → Prop} {clause : Option (List Token)}
    (h : ∀ tokens ∈ clause, ∃ tree, r tokens tree) : ∃ tree, Option.Rel r clause tree := by
  cases clause with
  | none => exact ⟨none, .none⟩
  | some tokens =>
      obtain ⟨tree, htree⟩ := h tokens rfl
      exact ⟨some tree, .some htree⟩

/-- Clauses that can be read on their own have trees, if no end marker is among their tokens. -/
theorem Readable.trees (h : clauses.Readable) (marks : ForMarks)
    (hopen : ∀ token ∈ clauses.asFor marks, token.category ≠ .eof) : Nonempty clauses.Trees := by
  obtain ⟨first, test, step, tokens⟩ := clauses
  have hfirst : ∀ tokens ∈ first, ∃ tree, Derives true .forInitializer tokens (some tree) := by
    rintro tokens rfl
    obtain ⟨tree, hinitializer, hderives⟩ := (h.initializer tokens rfl).derives fun token htoken =>
      hopen token (by simp [asFor, htoken])
    exact ⟨tree.erase, hderives.forInitializer hinitializer.erase⟩
  have htest : ∀ tokens ∈ test, ∃ tree, Derives true (.expression .assignment) tokens tree := by
    rintro tokens rfl
    exact (h.condition tokens rfl).derives fun token htoken => hopen token (by simp [asFor, htoken])
  have hstep : ∀ tokens ∈ step, ∃ tree, Derives true (.expression .assignment) tokens tree := by
    rintro tokens rfl
    exact (h.increment tokens rfl).derives fun token htoken => hopen token (by simp [asFor, htoken])
  obtain ⟨initializer, hinitializer⟩ := exists_rel hfirst
  obtain ⟨condition, hcondition⟩ := exists_rel htest
  obtain ⟨increment, hincrement⟩ := exists_rel hstep
  obtain ⟨tree, hplain, hderives⟩ := h.body.derives fun token htoken =>
    hopen token (by simp [asFor, htoken])
  obtain ⟨dangling, hbody⟩ := hderives.plain (by rwa [isDeclaration_erase])
  exact ⟨⟨initializer, condition, increment, tree.erase, dangling, hinitializer, hcondition,
    hincrement, hbody⟩⟩

end Clauses

end Lox.Grammar
