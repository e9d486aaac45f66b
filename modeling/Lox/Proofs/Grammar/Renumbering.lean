import Lox.Proofs.Grammar.Cursor
import Lox.Proofs.Syntax.Erasure

/-!
# Identities make no difference to a parse

Whatever identity is the next one, a token list is read alike: the same errors are noted, and the
trees differ in their identities only. This holds for faulty input too.
-/

namespace Lox.Grammar

variable {α β γ δ : Type}

/-! ## Parsers that do alike -/

/-- The cursor with another next identity. -/
def State.renumbered (state : State) (nextId : NodeId) : State :=
  { state with nextId := nextId }

/-- Results of which the same is seen, at cursors that differ in the next identity only. -/
inductive Alike (view : α → γ) :
    EStateM.Result Halt State α → EStateM.Result Halt State α → Prop where
  | ok {a a' : α} (after : State) (nextId : NodeId) : view a' = view a →
      Alike view (.ok a after) (.ok a' (after.renumbered nextId))
  | error (halt : Halt) (after : State) (nextId : NodeId) :
      Alike view (.error halt after) (.error halt (after.renumbered nextId))

/-- Whatever identity is the next one, the same is seen of what the parsers give. -/
def Oblivious (view : α → γ) (parser parser' : Parser α) : Prop :=
  ∀ setting before nextId,
    Alike view (result parser setting before) (result parser' setting (before.renumbered nextId))

namespace Oblivious

variable {view : α → γ} {view' : β → δ} {first first' : Parser α} {second second' : α → Parser β}

theorem pure {a a' : α} (h : view a' = view a) :
    Oblivious view (Pure.pure a) (Pure.pure a') :=
  fun _ before nextId => .ok before nextId h

theorem bind (hfirst : Oblivious view first first')
    (hsecond : ∀ a a', view a' = view a → Oblivious view' (second a) (second' a')) :
    Oblivious view' (first >>= second) (first' >>= second') := by
  intro setting before nextId
  have hread := hfirst setting before nextId
  generalize hleft : result first setting before = left at hread
  generalize hright : result first' setting (before.renumbered nextId) = right at hread
  cases hread with
  | @ok a a' after later hsame =>
      rw [bind_of_ok hleft, bind_of_ok hright]
      exact hsecond a a' hsame setting after later
  | error halt after later =>
      rw [bind_of_error hleft, bind_of_error hright]
      exact .error halt after later

/-- A parser that gives no trees comes first. -/
theorem after (hfirst : Oblivious id first first')
    (hsecond : ∀ a, Oblivious view' (second a) (second' a)) :
    Oblivious view' (first >>= second) (first' >>= second') := by
  refine hfirst.bind fun a a' h => ?_
  obtain rfl : a' = a := h
  exact hsecond a'

theorem map {f : α → β} (h : Oblivious view first first')
    (hview : ∀ a a', view a' = view a → view' (f a') = view' (f a)) :
    Oblivious view' (f <$> first) (f <$> first') := by
  rw [map_eq_bind, map_eq_bind]
  exact h.bind fun a a' hsame => pure (hview a a' hsame)

theorem ite {condition : Prop} [Decidable condition] {yes yes' no no' : Parser α}
    (hyes : Oblivious view yes yes') (hno : Oblivious view no no') :
    Oblivious view (if condition then yes else no) (if condition then yes' else no') := by
  split
  · exact hyes
  · exact hno

theorem tryCatch {handler : Halt → Parser α} (h : Oblivious view first first')
    (hhandler : ∀ halt, Oblivious view (handler halt) (handler halt)) :
    Oblivious view (MonadExcept.tryCatch first handler) (MonadExcept.tryCatch first' handler) := by
  intro setting before nextId
  have hread := h setting before nextId
  rw [result_tryCatch, result_tryCatch]
  generalize result first setting before = left at hread ⊢
  generalize result first' setting (before.renumbered nextId) = right at hread ⊢
  cases hread with
  | ok after later hsame => exact .ok after later hsame
  | error halt after later => exact hhandler halt setting after later

/-! ## The cursor's operations -/

theorem peek : Oblivious id Grammar.peek Grammar.peek :=
  fun _ before nextId => .ok before nextId rfl

theorem atEnd : Oblivious id Grammar.atEnd Grammar.atEnd :=
  fun _ before nextId => .ok before nextId rfl

theorem sees (category : Category) :
    Oblivious id (Grammar.sees category) (Grammar.sees category) :=
  fun _ before nextId => .ok before nextId rfl

theorem skip : Oblivious id Grammar.skip Grammar.skip := by
  intro setting before nextId
  rw [result_skip, result_skip]
  have hsame : (before.renumbered nextId).skipped = before.skipped.renumbered nextId := by
    cases h : before.rest <;> simp [State.skipped, State.renumbered, h]
  rw [hsame]
  exact .ok _ _ rfl

theorem freshId : Oblivious (fun _ => ()) Grammar.freshId Grammar.freshId :=
  fun _ before nextId => .ok before.renewed (nextId + 1) rfl

theorem faultHere (fault : SyntaxFault) :
    Oblivious id (Grammar.faultHere fault) (Grammar.faultHere fault) :=
  fun _ before nextId => .ok before nextId rfl

theorem giveUp (fault : SyntaxFault) :
    Oblivious view (Grammar.giveUp fault) (Grammar.giveUp fault) :=
  fun _ before nextId => .error _ before nextId

theorem note (error : SyntaxError) : Oblivious id (Grammar.note error) (Grammar.note error) :=
  fun _ before nextId => .ok (before.noted error) nextId rfl

theorem accept? (category : Category) :
    Oblivious id (Grammar.accept? category) (Grammar.accept? category) :=
  (sees category).after fun _ =>
    ite (peek.after fun _ => skip.after fun _ => pure rfl) (pure rfl)

theorem accepts (category : Category) :
    Oblivious id (Grammar.accepts category) (Grammar.accepts category) :=
  (accept? category).after fun _ => pure rfl

theorem expect (category : Category) (fault : SyntaxFault) :
    Oblivious id (Grammar.expect category fault) (Grammar.expect category fault) := by
  refine (accept? category).after fun found => ?_
  cases found with
  | some token => exact pure rfl
  | none => exact giveUp fault

theorem checkLimit (count : Nat) (fault : Nat → SyntaxFault) :
    Oblivious id (Grammar.checkLimit count fault) (Grammar.checkLimit count fault) := by
  intro setting before nextId
  rw [result_checkLimit, result_checkLimit]
  have hsame : (before.renumbered nextId).checked setting count fault =
      (before.checked setting count fault).renumbered nextId := by
    unfold State.checked
    cases setting.limit with
    | none => rfl
    | some limit =>
        by_cases h : limit ≤ count
        · simp only [h, if_true]
          rfl
        · simp only [h, if_false]
  rw [hsame]
  exact .ok _ _ rfl

theorem synchronize : Oblivious id Grammar.synchronize Grammar.synchronize := by
  intro setting before nextId
  rw [result_synchronize, result_synchronize]
  have hsame : (before.renumbered nextId).synchronized = before.synchronized.renumbered nextId := by
    cases h : before.rest <;> simp [State.synchronized, State.renumbered, h]
  rw [hsame]
  exact .ok _ _ rfl

end Oblivious

/-! ## Rules that do alike -/

/-- What a rule gives, without identities. -/
def Rule.erase : (rule : Rule) → rule.Tree → rule.Tree
  | .declarations _, trees => Stmt.eraseAll trees
  | .declaration, tree => Option.map Stmt.erase tree
  | .statement, tree => tree.erase
  | .methods, trees => FunctionDecl.eraseAll trees
  | .parameters _, names => names
  | .arguments _, trees => Expr.eraseAll trees
  | .expression, tree | .operation _, tree | .operators _ _, tree | .unary, tree | .call, tree
  | .suffixes _, tree | .primary, tree => Expr.erase tree

/-- Readers that do alike for every rule, also if they are given trees with other identities. -/
structure Readers.Oblivious (sub : Readers) : Prop where
  rule : ∀ rule : Rule, Grammar.Oblivious rule.erase (sub rule) (sub rule)
  operators : ∀ (level : Nat) (left left' : Expr), left'.erase = left.erase →
    Grammar.Oblivious Expr.erase (sub (.operators level left)) (sub (.operators level left'))
  suffixes : ∀ left left' : Expr, left'.erase = left.erase →
    Grammar.Oblivious Expr.erase (sub (.suffixes left)) (sub (.suffixes left'))

section

variable {sub : Readers} (hsub : sub.Oblivious)

include hsub

theorem expression_oblivious : Oblivious Expr.erase (expression sub) (expression sub) := by
  refine (hsub.rule (.operation _)).bind fun target target' htarget => ?_
  change target'.erase = target.erase at htarget
  refine (Oblivious.faultHere _).after fun invalid => (Oblivious.accepts _).after fun assigned => ?_
  refine Oblivious.ite ?_ (Oblivious.pure htarget)
  refine (hsub.rule .expression).bind fun value value' hvalue => ?_
  change value'.erase = value.erase at hvalue
  cases target <;> cases target' <;> simp only [Expr.erase, reduceCtorEq] at htarget
  case var.var id name id' name' =>
    cases htarget
    exact Oblivious.freshId.bind fun _ _ _ => Oblivious.pure (by simp [Expr.erase, hvalue])
  case get.get id object name id' object' name' =>
    simp only [Expr.get.injEq, true_and] at htarget
    obtain ⟨hobject, rfl⟩ := htarget
    exact Oblivious.freshId.bind fun _ _ _ => Oblivious.pure (by simp [Expr.erase, hvalue, hobject])
  all_goals
    exact (Oblivious.note _).after fun _ => Oblivious.pure (by simpa only [Expr.erase] using htarget)

theorem operators_oblivious (level : Nat) {left left' : Expr} (hleft : left'.erase = left.erase) :
    Oblivious Expr.erase (operators sub level left) (operators sub level left') := by
  refine Oblivious.peek.after fun operator => ?_
  cases infixLevel operator.category with
  | none => exact Oblivious.pure hleft
  | some tightness =>
      refine Oblivious.ite (Oblivious.pure hleft) (Oblivious.skip.after fun _ => ?_)
      refine (hsub.rule (.operation _)).bind fun right right' hright => ?_
      change right'.erase = right.erase at hright
      refine Oblivious.freshId.bind fun id id' _ => ?_
      split
      · exact hsub.operators _ _ _ (by simp [Expr.erase, hleft, hright])
      · exact hsub.operators _ _ _ (by simp [Expr.erase, hleft, hright])

theorem unary_oblivious : Oblivious Expr.erase (unary sub) (unary sub) := by
  refine Oblivious.peek.after fun operator => (Oblivious.sees _).after fun bang =>
    (Oblivious.sees _).after fun minus => Oblivious.ite ?_ (hsub.rule .call)
  refine Oblivious.skip.after fun _ => (hsub.rule .unary).bind fun operand operand' hoperand => ?_
  change operand'.erase = operand.erase at hoperand
  exact Oblivious.freshId.bind fun _ _ _ => Oblivious.pure (by simp [Expr.erase, hoperand])

theorem arguments_oblivious (count : Nat) :
    Oblivious Expr.eraseAll (arguments sub count) (arguments sub count) := by
  refine (Oblivious.checkLimit _ _).after fun _ =>
    (hsub.rule .expression).bind fun argument argument' hargument => ?_
  change argument'.erase = argument.erase at hargument
  refine (Oblivious.accepts _).after fun more => Oblivious.ite ?_ ?_
  · refine (hsub.rule (.arguments _)).bind fun rest rest' hrest => Oblivious.pure ?_
    change Expr.eraseAll rest' = Expr.eraseAll rest at hrest
    simp [Expr.eraseAll, hargument, hrest]
  · exact Oblivious.pure (by simp [Expr.eraseAll, hargument])

theorem argumentList_oblivious :
    Oblivious Expr.eraseAll (argumentList sub) (argumentList sub) :=
  (Oblivious.sees _).after fun _ => Oblivious.ite (Oblivious.pure rfl) (hsub.rule (.arguments 0))

theorem suffixes_oblivious {left left' : Expr} (hleft : left'.erase = left.erase) :
    Oblivious Expr.erase (suffixes sub left) (suffixes sub left') := by
  refine (Oblivious.accepts _).after fun called => Oblivious.ite ?_ ?_
  · refine (argumentList_oblivious hsub).bind fun arguments arguments' harguments => ?_
    refine (Oblivious.expect _ _).after fun paren => Oblivious.freshId.bind fun id id' _ => ?_
    exact hsub.suffixes _ _ (by simp [Expr.erase, hleft, harguments])
  · refine (Oblivious.accepts _).after fun dotted => Oblivious.ite ?_ (Oblivious.pure hleft)
    refine (Oblivious.expect _ _).after fun name => Oblivious.freshId.bind fun id id' _ => ?_
    exact hsub.suffixes _ _ (by simp [Expr.erase, hleft])

theorem primary_oblivious : Oblivious Expr.erase (primary sub) (primary sub) := by
  refine Oblivious.peek.after fun token => ?_
  cases literal? token.kind with
  | some value =>
      exact Oblivious.skip.after fun _ => Oblivious.freshId.bind fun _ _ _ => Oblivious.pure rfl
  | none =>
      refine (Oblivious.accepts _).after fun _ => Oblivious.ite ?_ ?_
      · exact (Oblivious.expect _ _).after fun _ => (Oblivious.expect _ _).after fun _ =>
          Oblivious.freshId.bind fun _ _ _ => Oblivious.pure rfl
      refine (Oblivious.accepts _).after fun _ => Oblivious.ite ?_ ?_
      · exact Oblivious.freshId.bind fun _ _ _ => Oblivious.pure rfl
      refine (Oblivious.accepts _).after fun _ => Oblivious.ite ?_ ?_
      · exact Oblivious.freshId.bind fun _ _ _ => Oblivious.pure rfl
      refine (Oblivious.accepts _).after fun _ => Oblivious.ite ?_ (Oblivious.giveUp _)
      refine (hsub.rule .expression).bind fun inner inner' hinner => ?_
      change inner'.erase = inner.erase at hinner
      exact (Oblivious.expect _ _).after fun _ =>
        Oblivious.freshId.bind fun _ _ _ => Oblivious.pure (by simp [Expr.erase, hinner])

theorem block_oblivious : Oblivious Stmt.eraseAll (block sub) (block sub) :=
  (hsub.rule (.declarations true)).bind fun _ _ hbody =>
    (Oblivious.expect _ _).after fun _ => Oblivious.pure hbody

theorem parameterList_oblivious : Oblivious id (parameterList sub) (parameterList sub) :=
  (Oblivious.sees _).after fun _ => Oblivious.ite (Oblivious.pure rfl) (hsub.rule (.parameters 0))

theorem function_oblivious (form : FunctionForm) :
    Oblivious FunctionDecl.erase (function sub form) (function sub form) := by
  refine (Oblivious.expect _ _).after fun name => (Oblivious.expect _ _).after fun _ =>
    (parameterList_oblivious hsub).after fun parameters => (Oblivious.expect _ _).after fun _ =>
      (Oblivious.expect _ _).after fun _ => (block_oblivious hsub).bind fun body body' hbody => ?_
  exact Oblivious.pure (by simp [FunctionDecl.erase, hbody])

theorem parameters_oblivious (count : Nat) :
    Oblivious id (parameters sub count) (parameters sub count) := by
  refine (Oblivious.checkLimit _ _).after fun _ => (Oblivious.expect _ _).after fun name =>
    (Oblivious.accepts _).after fun more => Oblivious.ite ?_ (Oblivious.pure rfl)
  have hrest : Oblivious id (sub (.parameters (count + 1))) (sub (.parameters (count + 1))) :=
    hsub.rule (.parameters (count + 1))
  exact hrest.after fun rest => Oblivious.pure rfl

theorem methods_oblivious : Oblivious FunctionDecl.eraseAll (methods sub) (methods sub) := by
  refine (Oblivious.sees _).after fun _ => Oblivious.atEnd.after fun _ =>
    Oblivious.ite (Oblivious.pure rfl) ?_
  refine (function_oblivious hsub .method).bind fun method method' hmethod =>
    (hsub.rule .methods).bind fun rest rest' hrest => Oblivious.pure ?_
  change FunctionDecl.eraseAll rest' = FunctionDecl.eraseAll rest at hrest
  simp [FunctionDecl.eraseAll, hmethod, hrest]

omit hsub in
theorem superclassClause_oblivious :
    Oblivious (Option.map Expr.erase) superclassClause superclassClause := by
  refine (Oblivious.accepts _).after fun _ => Oblivious.ite ?_ (Oblivious.pure rfl)
  exact (Oblivious.expect _ _).after fun _ => Oblivious.freshId.bind fun _ _ _ => Oblivious.pure rfl

theorem classDeclaration_oblivious :
    Oblivious Stmt.erase (classDeclaration sub) (classDeclaration sub) := by
  refine (Oblivious.expect _ _).after fun name =>
    superclassClause_oblivious.bind fun superclass superclass' hsuper =>
      (Oblivious.expect _ _).after fun _ => (hsub.rule .methods).bind fun methods methods' hmethods =>
        (Oblivious.expect _ _).after fun _ => Oblivious.pure ?_
  change FunctionDecl.eraseAll methods' = FunctionDecl.eraseAll methods at hmethods
  simp [Stmt.erase, hsuper, hmethods]

theorem initializerClause_oblivious :
    Oblivious (Option.map Expr.erase) (initializerClause sub) (initializerClause sub) := by
  refine (Oblivious.accepts _).after fun _ => Oblivious.ite ?_ (Oblivious.pure rfl)
  exact (hsub.rule .expression).bind fun _ _ hvalue => Oblivious.pure (congrArg some hvalue)

theorem varDeclaration_oblivious :
    Oblivious Stmt.erase (varDeclaration sub) (varDeclaration sub) := by
  refine (Oblivious.expect _ _).after fun name =>
    (initializerClause_oblivious hsub).bind fun value value' hvalue =>
      (Oblivious.expect _ _).after fun _ => Oblivious.pure ?_
  simp [Stmt.erase, hvalue]

theorem plainDeclaration_oblivious :
    Oblivious Stmt.erase (plainDeclaration sub) (plainDeclaration sub) := by
  refine (Oblivious.accepts _).after fun _ => Oblivious.ite (classDeclaration_oblivious hsub) ?_
  refine (Oblivious.accepts _).after fun _ => Oblivious.ite ?_ ?_
  · exact (function_oblivious hsub .function).bind fun _ _ h =>
      Oblivious.pure (congrArg Stmt.function h)
  · exact (Oblivious.accepts _).after fun _ =>
      Oblivious.ite (varDeclaration_oblivious hsub) (hsub.rule .statement)

theorem declaration_oblivious :
    Oblivious (Option.map Stmt.erase) (declaration sub) (declaration sub) := by
  refine Oblivious.tryCatch ((plainDeclaration_oblivious hsub).map fun _ _ h => congrArg some h)
    fun halt => ?_
  cases halt with
  | fault error =>
      exact (Oblivious.note error).after fun _ => Oblivious.synchronize.after fun _ =>
        Oblivious.pure rfl
  | outOfFuel => exact fun _ before nextId => .error .outOfFuel before nextId

theorem declarations_oblivious (inBlock : Bool) :
    Oblivious Stmt.eraseAll (declarations sub inBlock) (declarations sub inBlock) := by
  refine (Oblivious.sees _).after fun _ => Oblivious.atEnd.after fun _ =>
    Oblivious.ite (Oblivious.pure rfl) ?_
  refine (hsub.rule .declaration).bind fun first first' hfirst =>
    (hsub.rule (.declarations _)).bind fun rest rest' hrest => Oblivious.pure ?_
  change Option.map Stmt.erase first' = Option.map Stmt.erase first at hfirst
  change Stmt.eraseAll rest' = Stmt.eraseAll rest at hrest
  rw [Stmt.eraseAll_eq_map, Stmt.eraseAll_eq_map] at hrest ⊢
  rw [List.map_append, List.map_append, hrest, ← Option.toList_map, ← Option.toList_map, hfirst]

theorem expressionStatement_oblivious :
    Oblivious Stmt.erase (expressionStatement sub) (expressionStatement sub) :=
  (hsub.rule .expression).bind fun _ _ hvalue => (Oblivious.expect _ _).after fun _ =>
    Oblivious.pure (congrArg Stmt.expression hvalue)

theorem expressionUnless_oblivious (symbol : Symbol) :
    Oblivious (Option.map Expr.erase) (expressionUnless sub symbol)
      (expressionUnless sub symbol) := by
  refine (Oblivious.sees _).after fun _ => Oblivious.ite (Oblivious.pure rfl) ?_
  exact (hsub.rule .expression).bind fun _ _ hvalue => Oblivious.pure (congrArg some hvalue)

theorem forInitializer_oblivious :
    Oblivious (Option.map Stmt.erase) (forInitializer sub) (forInitializer sub) := by
  refine (Oblivious.accepts _).after fun _ => Oblivious.ite (Oblivious.pure rfl) ?_
  exact (Oblivious.accepts _).after fun _ => Oblivious.ite
    ((varDeclaration_oblivious hsub).map fun _ _ h => congrArg some h)
    ((expressionStatement_oblivious hsub).map fun _ _ h => congrArg some h)

omit hsub in
theorem orTrue_oblivious {condition condition' : Option Expr}
    (h : condition'.map Expr.erase = condition.map Expr.erase) :
    Oblivious Expr.erase (orTrue condition) (orTrue condition') := by
  cases condition with
  | none =>
      obtain rfl : condition' = none := by simpa using h
      exact Oblivious.freshId.bind fun _ _ _ => Oblivious.pure rfl
  | some e =>
      obtain ⟨e', rfl, he⟩ : ∃ e', condition' = some e' ∧ e'.erase = e.erase := by simpa using h
      exact Oblivious.pure he

theorem forStatement_oblivious : Oblivious Stmt.erase (forStatement sub) (forStatement sub) := by
  refine (Oblivious.expect _ _).after fun _ =>
    (forInitializer_oblivious hsub).bind fun initializer initializer' hinitializer =>
      (expressionUnless_oblivious hsub _).bind fun condition condition' hcondition =>
        (Oblivious.expect _ _).after fun _ =>
          (expressionUnless_oblivious hsub _).bind fun increment increment' hincrement =>
            (Oblivious.expect _ _).after fun _ =>
              (hsub.rule .statement).bind fun statement statement' hstatement =>
                (orTrue_oblivious hcondition).bind fun test test' htest => ?_
  change statement'.erase = statement.erase at hstatement
  cases increment <;> cases increment' <;> simp only [Option.map_none, Option.map_some, reduceCtorEq,
    Option.some.injEq] at hincrement <;>
  cases initializer <;> cases initializer' <;> simp only [Option.map_none, Option.map_some,
    reduceCtorEq, Option.some.injEq] at hinitializer <;>
  exact Oblivious.pure (by simp [Stmt.erase, Stmt.eraseAll, *])

theorem ifStatement_oblivious : Oblivious Stmt.erase (ifStatement sub) (ifStatement sub) := by
  refine (Oblivious.expect _ _).after fun _ =>
    (hsub.rule .expression).bind fun condition condition' hcondition =>
      (Oblivious.expect _ _).after fun _ =>
        (hsub.rule .statement).bind fun thenBranch thenBranch' hthen =>
          (Oblivious.accepts _).after fun _ => ?_
  change condition'.erase = condition.erase at hcondition
  change thenBranch'.erase = thenBranch.erase at hthen
  refine Oblivious.ite ?_ (Oblivious.pure (by simp [Stmt.erase, hcondition, hthen]))
  refine (hsub.rule .statement).bind fun elseBranch elseBranch' helse => Oblivious.pure ?_
  change elseBranch'.erase = elseBranch.erase at helse
  simp [Stmt.erase, hcondition, hthen, helse]

theorem printStatement_oblivious :
    Oblivious Stmt.erase (printStatement sub) (printStatement sub) :=
  (hsub.rule .expression).bind fun _ _ hvalue => (Oblivious.expect _ _).after fun _ =>
    Oblivious.pure (congrArg Stmt.print hvalue)

theorem returnStatement_oblivious (keyword : Token) :
    Oblivious Stmt.erase (returnStatement sub keyword) (returnStatement sub keyword) :=
  (expressionUnless_oblivious hsub _).bind fun _ _ hvalue => (Oblivious.expect _ _).after fun _ =>
    Oblivious.pure (congrArg (Stmt.return_ keyword) hvalue)

theorem whileStatement_oblivious :
    Oblivious Stmt.erase (whileStatement sub) (whileStatement sub) := by
  refine (Oblivious.expect _ _).after fun _ =>
    (hsub.rule .expression).bind fun condition condition' hcondition =>
      (Oblivious.expect _ _).after fun _ => (hsub.rule .statement).bind fun body body' hbody =>
        Oblivious.pure ?_
  change condition'.erase = condition.erase at hcondition
  change body'.erase = body.erase at hbody
  simp [Stmt.erase, hcondition, hbody]

theorem statement_oblivious : Oblivious Stmt.erase (statement sub) (statement sub) := by
  refine Oblivious.peek.after fun keyword => ?_
  refine (Oblivious.accepts _).after fun _ => Oblivious.ite (forStatement_oblivious hsub) ?_
  refine (Oblivious.accepts _).after fun _ => Oblivious.ite (ifStatement_oblivious hsub) ?_
  refine (Oblivious.accepts _).after fun _ => Oblivious.ite (printStatement_oblivious hsub) ?_
  refine (Oblivious.accepts _).after fun _ => Oblivious.ite (returnStatement_oblivious hsub _) ?_
  refine (Oblivious.accepts _).after fun _ => Oblivious.ite (whileStatement_oblivious hsub) ?_
  refine (Oblivious.accepts _).after fun _ =>
    Oblivious.ite ?_ (expressionStatement_oblivious hsub)
  exact (block_oblivious hsub).bind fun _ _ hbody => Oblivious.pure (congrArg Stmt.block hbody)

end

/-- Reading by the rules is oblivious of identities if reading by those that they refer to is. -/
theorem Rule.step_oblivious {sub : Readers} (hsub : sub.Oblivious) :
    Readers.Oblivious fun rule => rule.step sub := by
  refine ⟨fun rule => ?_, fun level left left' => operators_oblivious hsub level,
    fun left left' => suffixes_oblivious hsub⟩
  cases rule with
  | declarations inBlock => exact declarations_oblivious hsub inBlock
  | declaration => exact declaration_oblivious hsub
  | statement => exact statement_oblivious hsub
  | methods => exact methods_oblivious hsub
  | parameters count => exact parameters_oblivious hsub count
  | expression => exact expression_oblivious hsub
  | operation level =>
      exact (hsub.rule .unary).bind fun left left' hleft => hsub.operators level left left' hleft
  | operators level left => exact operators_oblivious hsub level rfl
  | unary => exact unary_oblivious hsub
  | call => exact (hsub.rule .primary).bind fun left left' hleft => hsub.suffixes left left' hleft
  | suffixes left => exact suffixes_oblivious hsub rfl
  | arguments count => exact arguments_oblivious hsub count
  | primary => exact primary_oblivious hsub

theorem Rule.run_oblivious (fuel : Nat) : Readers.Oblivious (Rule.run fuel) := by
  induction fuel with
  | zero =>
      exact ⟨fun _ _ before nextId => .error .outOfFuel before nextId,
        fun _ _ _ _ _ before nextId => .error .outOfFuel before nextId,
        fun _ _ _ _ before nextId => .error .outOfFuel before nextId⟩
  | succ fuel ih => exact Rule.step_oblivious ih

/-- Identities make no difference to the errors of a parse, and none to its trees but themselves. -/
theorem parse_renumbered (tokens : List Token) (nextId nextId' : NodeId) :
    (parse tokens nextId').errors = (parse tokens nextId).errors ∧
      Stmt.eraseAll (parse tokens nextId').statements =
        Stmt.eraseAll (parse tokens nextId).statements := by
  have hread := (Rule.run_oblivious (fuelFor (State.start tokens nextId).rest.length)).rule
    (.declarations false) (.standard tokens) (.start tokens nextId) nextId'
  simp only [parse, readProgram]
  change Alike _ (Rule.run _ _ _ _)
    (Rule.run (fuelFor (State.start tokens nextId').rest.length) _ _ (.start tokens nextId')) at hread
  generalize Rule.run (fuelFor (State.start tokens nextId).rest.length) (.declarations false)
    (.standard tokens) (.start tokens nextId) = left at hread ⊢
  generalize Rule.run (fuelFor (State.start tokens nextId').rest.length) (.declarations false)
    (.standard tokens) (.start tokens nextId') = right at hread ⊢
  cases hread with
  | ok after later hsame => exact ⟨rfl, hsame⟩
  | error halt after later => exact ⟨rfl, rfl⟩

end Lox.Grammar
