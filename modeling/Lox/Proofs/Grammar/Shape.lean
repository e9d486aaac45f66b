import Lox.Proofs.Grammar.Advance
import Lox.Proofs.Syntax.Shape

/-!
# The shape of what is read

Every tree that a rule gives has the shape of its kind, also in faulty input. A property that all
tokens before the cursor's end have is a property of the tokens in the trees.
-/

namespace Lox.Grammar

variable {α β : Type} {property : Token → Prop}

/-! ## Parsers that give well-shaped trees -/

/-- From a cursor at the token `next`, if there is one, the parser gives trees of a shape. -/
def GivesAt (property : Token → Prop) (next : Option Token) (parser : Parser α)
    (shape : α → Prop) : Prop :=
  ∀ setting before a after, (∀ token ∈ before.rest, property token) → before.rest.head? = next →
    result parser setting before = .ok a after →
      shape a ∧ ∀ token ∈ after.rest, property token

/-- The parser gives trees of a shape. -/
def Shapes (property : Token → Prop) (parser : Parser α) (shape : α → Prop) : Prop :=
  ∀ next, GivesAt property next parser shape

namespace GivesAt

variable {next : Option Token} {shape : α → Prop} {shape' : β → Prop}

theorem pure {a : α} (h : shape a) : GivesAt property next (Pure.pure a) shape := by
  intro setting before b after hrest _ hok
  cases hok
  exact ⟨h, hrest⟩

theorem giveUp (fault : SyntaxFault) : GivesAt property next (Grammar.giveUp fault) shape := by
  intro setting before a after _ _ hok
  rw [result_giveUp] at hok
  cases hok

theorem bind {first : Parser α} {second : α → Parser β} (hfirst : GivesAt property next first shape)
    (hsecond : ∀ a, shape a → Shapes property (second a) shape') :
    GivesAt property next (first >>= second) shape' := by
  intro setting before b after hrest hnext hok
  obtain ⟨a, middle, ha, hb⟩ := bind_eq_ok.mp hok
  obtain ⟨hshape, hrest'⟩ := hfirst setting before a middle hrest hnext ha
  exact hsecond a hshape _ setting middle b after hrest' rfl hb

theorem map {parser : Parser α} (f : α → β) (h : GivesAt property next parser shape)
    (hf : ∀ a, shape a → shape' (f a)) : GivesAt property next (f <$> parser) shape' := by
  rw [map_eq_bind]
  exact h.bind fun a ha _ => pure (hf a ha)

theorem ite {condition : Prop} [Decidable condition] {yes no : Parser α}
    (hyes : condition → GivesAt property next yes shape)
    (hno : ¬condition → GivesAt property next no shape) :
    GivesAt property next (if condition then yes else no) shape := by
  split
  · exact hyes ‹_›
  · exact hno ‹_›

/-- What is not looked at has no shape. -/
theorem of_advances {parser : Parser α} (h : Advances parser) :
    GivesAt property next parser fun _ => True := by
  intro setting before a after hrest _ hok
  obtain ⟨tokens, htokens, -⟩ := (h.of_ok hok).read
  refine ⟨trivial, fun token htoken => hrest token ?_⟩
  rw [htokens]
  exact List.mem_append_right tokens htoken

theorem skipping {first : Parser α} {second : α → Parser β} (hfirst : Advances first)
    (hsecond : ∀ a, Shapes property (second a) shape') :
    GivesAt property next (first >>= second) shape' :=
  (of_advances hfirst).bind fun a _ => hsecond a

/-- The next token is looked at. At the end it is the end marker, of which nothing is known. -/
theorem peek_bind {second : Token → Parser β}
    (h : ∀ token, (∀ category, next.map Token.category = some category →
      token.Is property category) → GivesAt property next (second token) shape') :
    GivesAt property next (peek >>= second) shape' := by
  intro setting before b after hrest hnext hok
  rw [bind_of_ok result_peek] at hok
  refine h _ ?_ setting before b after hrest hnext hok
  intro category hcategory
  rw [← hnext] at hcategory
  cases hfirst : before.rest with
  | nil =>
      rw [hfirst] at hcategory
      cases hcategory
  | cons token rest =>
      rw [hfirst] at hcategory
      exact ⟨Option.some.inj hcategory, hrest token (by simp [hfirst])⟩

/-- Whether the next token is of a category is decided. -/
theorem accepts_ite {category : Category} {yes no : Parser α}
    (hyes : next.map Token.category = some category → Shapes property yes shape)
    (hno : next.map Token.category ≠ some category → GivesAt property next no shape) :
    GivesAt property next
      (accepts category >>= fun accepted => if accepted = true then yes else no) shape := by
  intro setting before a after hrest hnext hok
  have hcategory : before.next? = next.map Token.category := by
    rw [← hnext]
    rfl
  by_cases h : before.next? = some category
  · rw [accepts_ite_of_next h] at hok
    refine hyes (by rw [← hcategory, h]) _ setting _ a after ?_ rfl hok
    intro token htoken
    rw [State.skipped_rest] at htoken
    exact hrest token (List.mem_of_mem_tail htoken)
  · rw [accepts_ite_of_not h] at hok
    exact hno (by rwa [← hcategory]) setting before a after hrest hnext hok

theorem sees_bind {category : Category} {second : Bool → Parser β}
    (h : GivesAt property next (second (decide (next.map Token.category = some category))) shape') :
    GivesAt property next (sees category >>= second) shape' := by
  intro setting before a after hrest hnext hok
  have hcategory : before.next? = next.map Token.category := by
    rw [← hnext]
    rfl
  rw [bind_of_ok (result_sees category), hcategory] at hok
  exact h setting before a after hrest hnext hok

theorem expect (category : Category) (fault : SyntaxFault) :
    GivesAt property next (Grammar.expect category fault) (Token.Is property category) := by
  intro setting before token after hrest _ hok
  by_cases h : before.next? = some category
  · obtain ⟨first, rest, hfirst, hcategory⟩ := State.next?_eq_some h
    rw [result_expect_of_next h] at hok
    cases hok
    refine ⟨⟨by simpa [hfirst] using hcategory, hrest _ (by simp [hfirst])⟩, ?_⟩
    intro token htoken
    rw [State.skipped_rest] at htoken
    exact hrest token (List.mem_of_mem_tail htoken)
  · rw [result_expect_of_not h] at hok
    cases hok

end GivesAt

/-! ## Operators -/

theorem mem_logicalOperators {keyword : Keyword} {level : Nat}
    (h : infixLevel (.keyword keyword) = some level) : .keyword keyword ∈ logicalOperators := by
  cases keyword <;> simp [infixLevel, logicalOperators] at h ⊢

theorem mem_binaryOperators {category : Category} {level : Nat}
    (h : infixLevel category = some level) (hkeyword : ∀ keyword, category ≠ .keyword keyword) :
    category ∈ binaryOperators := by
  cases category with
  | keyword keyword => exact absurd rfl (hkeyword keyword)
  | symbol symbol => cases symbol <;> simp [infixLevel, binaryOperators] at h ⊢
  | _ => cases h

/-! ## Rules that give well-shaped trees -/

/-- The shape of what a rule gives. -/
def Rule.shape (property : Token → Prop) : (rule : Rule) → rule.Tree → Prop
  | .declarations _, trees => Stmt.FormedAll property trees
  | .declaration, tree => Stmt.FormedAll property tree.toList
  | .statement, tree => tree.isDeclaration = false ∧ tree.Formed property
  | .methods, trees => FunctionDecl.FormedAll property trees
  | .parameters _, names => Token.NameAll property names
  | .arguments _, trees => Expr.FormedAll property trees
  | .expression, tree | .operation _, tree | .operators _ _, tree | .unary, tree | .call, tree
  | .suffixes _, tree | .primary, tree => Expr.Formed property tree

/-- The shape of what a rule is given. -/
def Rule.GivenShape (property : Token → Prop) : Rule → Prop
  | .operators _ left | .suffixes left => left.Formed property
  | _ => True

/-- Reading by the rule gives well-shaped trees. -/
def Rule.Shapes (property : Token → Prop) (sub : Readers) (rule : Rule) : Prop :=
  rule.GivenShape property → Grammar.Shapes property (sub rule) (rule.shape property)

section

variable {sub : Readers} (hsub : ∀ rule, Rule.Shapes property sub rule)

include hsub

theorem expression_shapes : Shapes property (expression sub) (Expr.Formed property) := by
  intro next
  refine GivesAt.bind (hsub (.operation _) trivial next) fun target htarget next => ?_
  refine GivesAt.skipping (Advances.faultHere _) fun invalid next => ?_
  refine GivesAt.accepts_ite (fun _ next => ?_) fun _ => GivesAt.pure htarget
  refine GivesAt.bind (hsub .expression trivial next) fun value hvalue next => ?_
  change Expr.Formed property value at hvalue
  change Expr.Formed property target at htarget
  cases target with
  | var id name =>
      refine GivesAt.skipping Advances.freshId fun fresh next => GivesAt.pure ?_
      exact ⟨htarget, hvalue⟩
  | get id object name =>
      rw [Expr.Formed] at htarget
      refine GivesAt.skipping Advances.freshId fun fresh next => GivesAt.pure ?_
      exact ⟨htarget.1, htarget.2, hvalue⟩
  | _ => exact GivesAt.skipping (Advances.note _) fun _ next => GivesAt.pure htarget

theorem operators_shapes (level : Nat) {left : Expr} (hleft : left.Formed property) :
    Shapes property (operators sub level left) (Expr.Formed property) := by
  intro next
  refine GivesAt.peek_bind fun operator _ => ?_
  cases hlevel : infixLevel operator.category with
  | none => exact GivesAt.pure hleft
  | some tightness =>
      refine GivesAt.ite (fun _ => GivesAt.pure hleft) fun _ => ?_
      refine GivesAt.skipping Advances.skip fun _ next => ?_
      refine GivesAt.bind (hsub (.operation _) trivial next) fun right hright next => ?_
      refine GivesAt.skipping Advances.freshId fun id next => ?_
      split
      · next keyword hcategory =>
          refine hsub (.operators level (.logical id left operator right)) ⟨hleft, ?_, hright⟩ next
          rw [hcategory] at hlevel ⊢
          exact mem_logicalOperators hlevel
      · next hcategory =>
          refine hsub (.operators level (.binary id left operator right)) ⟨hleft, ?_, hright⟩ next
          exact mem_binaryOperators hlevel hcategory

theorem unary_shapes : Shapes property (unary sub) (Expr.Formed property) := by
  intro next
  refine GivesAt.peek_bind fun operator hoperator => ?_
  refine GivesAt.sees_bind (GivesAt.sees_bind (GivesAt.ite (fun hsign => ?_) fun _ => ?_))
  · refine GivesAt.skipping Advances.skip fun _ next => ?_
    refine GivesAt.bind (hsub .unary trivial next) fun operand hoperand next => ?_
    refine GivesAt.skipping Advances.freshId fun _ next => GivesAt.pure ⟨?_, hoperand⟩
    simp only [Bool.or_eq_true, decide_eq_true_eq] at hsign
    rcases hsign with hsign | hsign
    · simp [(hoperator _ hsign).category, unaryOperators]
    · simp [(hoperator _ hsign).category, unaryOperators]
  · exact hsub .call trivial next

theorem arguments_shapes (count : Nat) :
    Shapes property (arguments sub count) (Expr.FormedAll property) := by
  intro next
  refine GivesAt.skipping (Advances.checkLimit _ _) fun _ next => ?_
  refine GivesAt.bind (hsub .expression trivial next) fun first hfirst next => ?_
  refine GivesAt.accepts_ite (fun _ next => ?_) fun _ => GivesAt.pure ⟨hfirst, trivial⟩
  exact GivesAt.bind (hsub (.arguments _) trivial next) fun rest hrest next =>
    GivesAt.pure ⟨hfirst, hrest⟩

theorem argumentList_shapes : Shapes property (argumentList sub) (Expr.FormedAll property) := by
  intro next
  refine GivesAt.sees_bind (GivesAt.ite (fun _ => GivesAt.pure trivial) fun _ => ?_)
  exact hsub (.arguments 0) trivial next

theorem suffixes_shapes {left : Expr} (hleft : left.Formed property) :
    Shapes property (suffixes sub left) (Expr.Formed property) := by
  intro next
  refine GivesAt.accepts_ite (fun _ next => ?_) fun _ => ?_
  · refine GivesAt.bind (argumentList_shapes hsub next) fun arguments harguments next => ?_
    refine GivesAt.skipping (Advances.expect _ _) fun paren next => ?_
    refine GivesAt.skipping Advances.freshId fun id next => ?_
    exact hsub (.suffixes (.call id left paren arguments)) ⟨hleft, harguments⟩ next
  · refine GivesAt.accepts_ite (fun _ next => ?_) fun _ => GivesAt.pure hleft
    refine GivesAt.bind (GivesAt.expect _ _) fun name hname next => ?_
    refine GivesAt.skipping Advances.freshId fun id next => ?_
    exact hsub (.suffixes (.get id left name)) ⟨hleft, hname⟩ next

theorem primary_shapes : Shapes property (primary sub) (Expr.Formed property) := by
  intro next
  have hleaf : ∀ tree : NodeId → Expr, (∀ id, (tree id).Formed property) →
      Shapes property (do return tree (← freshId)) (Expr.Formed property) := by
    intro tree htree next
    exact GivesAt.skipping Advances.freshId fun id next => GivesAt.pure (htree id)
  refine GivesAt.peek_bind fun token htoken => ?_
  cases literal? token.kind with
  | some value => exact GivesAt.skipping Advances.skip fun _ => hleaf _ fun _ => trivial
  | none =>
      refine GivesAt.accepts_ite (fun hsuper next => ?_) fun _ => ?_
      · refine GivesAt.skipping (Advances.expect _ _) fun _ next => ?_
        refine GivesAt.bind (GivesAt.expect _ _) fun method hmethod => ?_
        exact hleaf _ fun _ => ⟨htoken _ hsuper, hmethod⟩
      refine GivesAt.accepts_ite (fun hthis => hleaf _ fun _ => htoken _ hthis) fun _ => ?_
      refine GivesAt.accepts_ite (fun hname => hleaf _ fun _ => htoken _ hname) fun _ => ?_
      refine GivesAt.accepts_ite (fun _ next => ?_) fun _ => GivesAt.giveUp _
      refine GivesAt.bind (hsub .expression trivial next) fun inner hinner next => ?_
      refine GivesAt.skipping (Advances.expect _ _) fun _ next => ?_
      exact GivesAt.skipping Advances.freshId fun id next => GivesAt.pure hinner

theorem block_shapes : Shapes property (block sub) (Stmt.FormedAll property) := by
  intro next
  refine GivesAt.bind (hsub (.declarations true) trivial next) fun body hbody next => ?_
  exact GivesAt.skipping (Advances.expect _ _) fun _ next => GivesAt.pure hbody

theorem parameterList_shapes : Shapes property (parameterList sub) (Token.NameAll property) := by
  intro next
  refine GivesAt.sees_bind (GivesAt.ite (fun _ => GivesAt.pure (by simp [Token.NameAll])) fun _ => ?_)
  exact hsub (.parameters 0) trivial next

theorem function_shapes (form : FunctionForm) :
    Shapes property (function sub form) (FunctionDecl.Formed property) := by
  intro next
  refine GivesAt.bind (GivesAt.expect _ _) fun name hname next => ?_
  refine GivesAt.skipping (Advances.expect _ _) fun _ next => ?_
  refine GivesAt.bind (parameterList_shapes hsub next) fun parameters hparameters next => ?_
  refine GivesAt.skipping (Advances.expect _ _) fun _ next => ?_
  refine GivesAt.skipping (Advances.expect _ _) fun _ next => ?_
  refine GivesAt.bind (block_shapes hsub next) fun body hbody next => GivesAt.pure ?_
  exact ⟨hname, hparameters, hbody⟩

theorem parameters_shapes (count : Nat) :
    Shapes property (parameters sub count) (Token.NameAll property) := by
  intro next
  refine GivesAt.skipping (Advances.checkLimit _ _) fun _ next => ?_
  refine GivesAt.bind (GivesAt.expect _ _) fun name hname next => ?_
  refine GivesAt.accepts_ite (fun _ next => ?_) fun _ => GivesAt.pure ?_
  · refine GivesAt.bind (hsub (.parameters _) trivial next) fun rest hrest next => GivesAt.pure ?_
    exact List.forall_mem_cons.mpr ⟨hname, hrest⟩
  · simpa [Token.NameAll] using hname

theorem methods_shapes : Shapes property (methods sub) (FunctionDecl.FormedAll property) := by
  intro next
  refine GivesAt.skipping (Advances.sees _) fun _ next => ?_
  refine GivesAt.skipping Advances.atEnd fun _ next => ?_
  refine GivesAt.ite (fun _ => GivesAt.pure trivial) fun _ => ?_
  refine GivesAt.bind (function_shapes hsub .method next) fun method hmethod next => ?_
  exact GivesAt.bind (hsub .methods trivial next) fun rest hrest next =>
    GivesAt.pure ⟨hmethod, hrest⟩

omit hsub in
theorem superclassClause_shapes : Shapes property superclassClause (Expr.NameOpt property) := by
  intro next
  refine GivesAt.accepts_ite (fun _ next => ?_) fun _ => GivesAt.pure trivial
  refine GivesAt.bind (GivesAt.expect _ _) fun name hname next => ?_
  exact GivesAt.skipping Advances.freshId fun id next => GivesAt.pure ⟨id, name, rfl, hname⟩

theorem classDeclaration_shapes : Shapes property (classDeclaration sub) (Stmt.Formed property) := by
  intro next
  refine GivesAt.bind (GivesAt.expect _ _) fun name hname next => ?_
  refine GivesAt.bind (superclassClause_shapes next) fun superclass hsuperclass next => ?_
  refine GivesAt.skipping (Advances.expect _ _) fun _ next => ?_
  refine GivesAt.bind (hsub .methods trivial next) fun methods hmethods next => ?_
  exact GivesAt.skipping (Advances.expect _ _) fun _ next =>
    GivesAt.pure ⟨hname, hsuperclass, hmethods⟩

theorem initializerClause_shapes :
    Shapes property (initializerClause sub) (Expr.FormedOpt property) := by
  intro next
  refine GivesAt.accepts_ite (fun _ next => ?_) fun _ => GivesAt.pure trivial
  exact GivesAt.bind (hsub .expression trivial next) fun value hvalue next => GivesAt.pure hvalue

theorem varDeclaration_shapes : Shapes property (varDeclaration sub) (Stmt.Formed property) := by
  intro next
  refine GivesAt.bind (GivesAt.expect _ _) fun name hname next => ?_
  refine GivesAt.bind (initializerClause_shapes hsub next) fun initializer hinitializer next => ?_
  exact GivesAt.skipping (Advances.expect _ _) fun _ next => GivesAt.pure ⟨hname, hinitializer⟩

theorem expressionStatement_shapes :
    Shapes property (expressionStatement sub) (Rule.shape property .statement) := by
  intro next
  refine GivesAt.bind (hsub .expression trivial next) fun value hvalue next => ?_
  exact GivesAt.skipping (Advances.expect _ _) fun _ next => GivesAt.pure ⟨rfl, hvalue⟩

theorem expressionUnless_shapes (symbol : Symbol) :
    Shapes property (expressionUnless sub symbol) (Expr.FormedOpt property) := by
  intro next
  refine GivesAt.sees_bind (GivesAt.ite (fun _ => GivesAt.pure trivial) fun _ => ?_)
  exact GivesAt.bind (hsub .expression trivial next) fun value hvalue next => GivesAt.pure hvalue

theorem forInitializer_shapes :
    Shapes property (forInitializer sub) fun tree => Stmt.FormedAll property tree.toList := by
  intro next
  refine GivesAt.accepts_ite (fun _ next => GivesAt.pure trivial) fun _ => ?_
  refine GivesAt.accepts_ite (fun _ next => ?_) fun _ => ?_
  · exact GivesAt.map some (varDeclaration_shapes hsub next) fun tree htree => ⟨htree, trivial⟩
  · exact GivesAt.map some (expressionStatement_shapes hsub next) fun tree htree =>
      ⟨htree.2, trivial⟩

omit hsub in
theorem orTrue_shapes {condition : Option Expr} (h : Expr.FormedOpt property condition) :
    Shapes property (orTrue condition) (Expr.Formed property) := by
  intro next
  cases condition with
  | none => exact GivesAt.skipping Advances.freshId fun id next => GivesAt.pure trivial
  | some condition => exact GivesAt.pure h

theorem forStatement_shapes :
    Shapes property (forStatement sub) (Rule.shape property .statement) := by
  intro next
  refine GivesAt.skipping (Advances.expect _ _) fun _ next => ?_
  refine GivesAt.bind (forInitializer_shapes hsub next) fun initializer hinitializer next => ?_
  refine GivesAt.bind (expressionUnless_shapes hsub _ next) fun condition hcondition next => ?_
  refine GivesAt.skipping (Advances.expect _ _) fun _ next => ?_
  refine GivesAt.bind (expressionUnless_shapes hsub _ next) fun increment hincrement next => ?_
  refine GivesAt.skipping (Advances.expect _ _) fun _ next => ?_
  refine GivesAt.bind (hsub .statement trivial next) fun statement hstatement next => ?_
  obtain ⟨hplain, hformed⟩ := hstatement
  refine GivesAt.bind (orTrue_shapes hcondition next) fun test htest next => ?_
  cases initializer with
  | none =>
      cases increment with
      | none => exact GivesAt.pure ⟨rfl, htest, hplain, hformed⟩
      | some increment =>
          exact GivesAt.pure ⟨rfl, htest, rfl, hformed, hincrement, trivial⟩
  | some initializer =>
      obtain ⟨hinitializer, -⟩ := hinitializer
      cases increment with
      | none =>
          exact GivesAt.pure ⟨rfl, hinitializer, ⟨htest, hplain, hformed⟩, trivial⟩
      | some increment =>
          exact GivesAt.pure
            ⟨rfl, hinitializer, ⟨htest, rfl, hformed, hincrement, trivial⟩, trivial⟩

theorem ifStatement_shapes :
    Shapes property (ifStatement sub) (Rule.shape property .statement) := by
  intro next
  refine GivesAt.skipping (Advances.expect _ _) fun _ next => ?_
  refine GivesAt.bind (hsub .expression trivial next) fun condition hcondition next => ?_
  refine GivesAt.skipping (Advances.expect _ _) fun _ next => ?_
  refine GivesAt.bind (hsub .statement trivial next) fun thenBranch hthen next => ?_
  refine GivesAt.accepts_ite (fun _ next => ?_) fun _ => GivesAt.pure ⟨rfl, hcondition, hthen⟩
  refine GivesAt.bind (hsub .statement trivial next) fun elseBranch helse next => ?_
  exact GivesAt.pure ⟨rfl, hcondition, hthen, helse⟩

theorem printStatement_shapes :
    Shapes property (printStatement sub) (Rule.shape property .statement) := by
  intro next
  refine GivesAt.bind (hsub .expression trivial next) fun value hvalue next => ?_
  exact GivesAt.skipping (Advances.expect _ _) fun _ next => GivesAt.pure ⟨rfl, hvalue⟩

theorem returnStatement_shapes {keyword : Token}
    (hkeyword : keyword.Is property (.keyword .return_)) :
    Shapes property (returnStatement sub keyword) (Rule.shape property .statement) := by
  intro next
  refine GivesAt.bind (expressionUnless_shapes hsub _ next) fun value hvalue next => ?_
  exact GivesAt.skipping (Advances.expect _ _) fun _ next => GivesAt.pure ⟨rfl, hkeyword, hvalue⟩

theorem whileStatement_shapes :
    Shapes property (whileStatement sub) (Rule.shape property .statement) := by
  intro next
  refine GivesAt.skipping (Advances.expect _ _) fun _ next => ?_
  refine GivesAt.bind (hsub .expression trivial next) fun condition hcondition next => ?_
  refine GivesAt.skipping (Advances.expect _ _) fun _ next => ?_
  refine GivesAt.bind (hsub .statement trivial next) fun body hbody next => ?_
  exact GivesAt.pure ⟨rfl, hcondition, hbody⟩

theorem statement_shapes : Shapes property (statement sub) (Rule.shape property .statement) := by
  intro next
  refine GivesAt.peek_bind fun keyword hkeyword => ?_
  refine GivesAt.accepts_ite (fun _ => forStatement_shapes hsub) fun _ => ?_
  refine GivesAt.accepts_ite (fun _ => ifStatement_shapes hsub) fun _ => ?_
  refine GivesAt.accepts_ite (fun _ => printStatement_shapes hsub) fun _ => ?_
  refine GivesAt.accepts_ite (fun h => returnStatement_shapes hsub (hkeyword _ h)) fun _ => ?_
  refine GivesAt.accepts_ite (fun _ => whileStatement_shapes hsub) fun _ => ?_
  refine GivesAt.accepts_ite (fun _ next => ?_) fun _ => expressionStatement_shapes hsub next
  exact GivesAt.bind (block_shapes hsub next) fun body hbody next => GivesAt.pure ⟨rfl, hbody⟩

theorem plainDeclaration_shapes :
    Shapes property (plainDeclaration sub) (Stmt.Formed property) := by
  intro next
  refine GivesAt.accepts_ite (fun _ => classDeclaration_shapes hsub) fun _ => ?_
  refine GivesAt.accepts_ite (fun _ next => ?_) fun _ => ?_
  · exact GivesAt.bind (function_shapes hsub .function next) fun tree htree next =>
      GivesAt.pure htree
  refine GivesAt.accepts_ite (fun _ => varDeclaration_shapes hsub) fun _ => ?_
  intro setting before tree after hrest hnext hok
  obtain ⟨hshape, hrest'⟩ :=
    hsub .statement trivial next setting before tree after hrest hnext hok
  exact ⟨hshape.2, hrest'⟩

theorem declarations_shapes (inBlock : Bool) :
    Shapes property (declarations sub inBlock) (Stmt.FormedAll property) := by
  intro next
  refine GivesAt.skipping (Advances.sees _) fun _ next => ?_
  refine GivesAt.skipping Advances.atEnd fun _ next => ?_
  refine GivesAt.ite (fun _ => GivesAt.pure trivial) fun _ => ?_
  refine GivesAt.bind (hsub .declaration trivial next) fun first hfirst next => ?_
  refine GivesAt.bind (hsub (.declarations _) trivial next) fun rest hrest next => GivesAt.pure ?_
  exact (Stmt.formedAll_append _ _).mpr ⟨hfirst, hrest⟩

theorem declaration_shapes (hadvance : ∀ rule, Advances (sub rule)) :
    Shapes property (declaration sub) (Rule.shape property .declaration) := by
  intro next setting before tree after hrest hnext hok
  obtain ⟨-, hrest'⟩ := GivesAt.of_advances (declaration_advances hadvance) setting before tree
    after hrest hnext hok
  refine ⟨?_, hrest'⟩
  rw [declaration, result_tryCatch] at hok
  cases h : result (some <$> plainDeclaration sub) setting before with
  | ok statement middle =>
      rw [h] at hok
      cases hok
      exact (GivesAt.map some (plainDeclaration_shapes hsub next)
        fun tree htree => ⟨htree, trivial⟩) setting before _ _ hrest hnext h |>.1
  | error halt middle =>
      rw [h] at hok
      cases halt with
      | outOfFuel => cases hok
      | fault error =>
          obtain ⟨_, _, -, hok⟩ := bind_eq_ok.mp hok
          obtain ⟨_, _, -, hok⟩ := bind_eq_ok.mp hok
          cases hok
          trivial

end

/-- Reading by a rule gives well-shaped trees if reading by the rules that it refers to does. -/
theorem Rule.step_shapes {sub : Readers} (hsub : ∀ rule, Rule.Shapes property sub rule)
    (hadvance : ∀ rule, Advances (sub rule)) (rule : Rule) :
    Rule.Shapes property (fun rule => rule.step sub) rule := by
  intro hgiven
  cases rule with
  | declarations inBlock => exact declarations_shapes hsub inBlock
  | declaration => exact declaration_shapes hsub hadvance
  | statement => exact statement_shapes hsub
  | methods => exact methods_shapes hsub
  | parameters count => exact parameters_shapes hsub count
  | expression => exact expression_shapes hsub
  | operation level =>
      exact fun next => GivesAt.bind (hsub .unary trivial next) fun left hleft =>
        hsub (.operators level left) hleft
  | operators level left => exact operators_shapes hsub level hgiven
  | unary => exact unary_shapes hsub
  | call =>
      exact fun next => GivesAt.bind (hsub .primary trivial next) fun left hleft =>
        hsub (.suffixes left) hleft
  | suffixes left => exact suffixes_shapes hsub hgiven
  | arguments count => exact arguments_shapes hsub count
  | primary => exact primary_shapes hsub

/-- However many references to rules are allowed, reading gives well-shaped trees. -/
theorem Rule.run_shapes (property : Token → Prop) (fuel : Nat) (rule : Rule) :
    Rule.Shapes property (Rule.run fuel) rule := by
  induction fuel generalizing rule with
  | zero =>
      intro _ next setting before tree after _ _ hok
      cases hok
  | succ fuel ih => exact Rule.step_shapes ih (Rule.run_advances fuel) rule

/-- The statements of a program are well-shaped, and their tokens have every property that all
tokens of the program have. -/
theorem parse_formed (property : Token → Prop) (tokens : List Token) (nextId : NodeId)
    (h : ∀ token ∈ tokens, property token) :
    Stmt.FormedAll property (parse tokens nextId).statements := by
  rw [parse, readProgram]
  cases hrun : Rule.run (fuelFor (State.start tokens nextId).rest.length) (.declarations false)
      (.standard tokens) (.start tokens nextId) with
  | ok statements after =>
      have hshapes := Rule.run_shapes property _ (.declarations false) trivial _ _ _ _ _
        (fun token htoken => h token ?_) rfl hrun
      · exact hshapes.1
      · exact (List.takeWhile_prefix _).subset htoken
  | error halt after => trivial

/-- So is a single expression. -/
theorem readExpression_formed (property : Token → Prop) (tokens : List Token) (nextId : NodeId)
    (h : ∀ token ∈ tokens, property token) {expression : Expr}
    (hread : (readExpression (.standard tokens) (.start tokens nextId)).1 = .ok expression) :
    expression.Formed property := by
  rw [readExpression] at hread
  cases hrun : Rule.run (fuelFor (State.start tokens nextId).rest.length) .expression
      (.standard tokens) (.start tokens nextId) with
  | ok expression after =>
      rw [hrun] at hread
      cases hread
      have hshapes := Rule.run_shapes property _ .expression trivial _ _ _ _ _
        (fun token htoken => h token ?_) rfl hrun
      · exact hshapes.1
      · exact (List.takeWhile_prefix _).subset htoken
  | error halt after =>
      rw [hrun] at hread
      cases halt <;> cases hread

end Lox.Grammar
