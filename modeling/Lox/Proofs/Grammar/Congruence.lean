import Lox.Proofs.Grammar.Cursor

/-!
# Congruences of parsers

A relation between parsers may hold of the operations of the cursor and be kept when parsers are put
together. It then holds of reading by a rule if it holds of reading by the rules that this one refers
to. Left out are the rules that note errors: assignments, entries of lists, which are checked against
the limit, and declarations, which recover. Facts about one parser are relations that look at one side
only.
-/

namespace Lox

/-- Whether the fault is that something else was expected, for which reading gives up. -/
def SyntaxFault.Expects : SyntaxFault → Prop
  | expectedName _ | expectedSymbol _ _ | expectedExpression => True
  | invalidAssignmentTarget | tooManyParameters _ | tooManyArguments _ => False

namespace Grammar

/-- A relation that holds of every operation of the cursor, but for those that note errors and
recover, and that is kept when parsers are put together. -/
structure Congruence where
  Rel : {α : Type} → Parser α → Parser α → Prop
  pure : ∀ {α : Type} (a : α), Rel (Pure.pure a) (Pure.pure a)
  bind : ∀ {α β : Type} {first first' : Parser α} {second second' : α → Parser β},
    Rel first first' → (∀ a, Rel (second a) (second' a)) →
      Rel (first >>= second) (first' >>= second')
  peek : Rel Grammar.peek Grammar.peek
  atEnd : Rel Grammar.atEnd Grammar.atEnd
  sees : ∀ category, Rel (Grammar.sees category) (Grammar.sees category)
  skip : Rel Grammar.skip Grammar.skip
  freshId : Rel Grammar.freshId Grammar.freshId
  giveUp : ∀ {α : Type} {fault : SyntaxFault}, fault.Expects →
    Rel (Grammar.giveUp fault : Parser α) (Grammar.giveUp fault)

namespace Congruence

variable (R : Congruence)

/-! ## Operations that are put together -/

section

variable {α β : Type}

theorem map {parser parser' : Parser α} (f : α → β) (h : R.Rel parser parser') :
    R.Rel (f <$> parser) (f <$> parser') := by
  rw [map_eq_bind, map_eq_bind]
  exact R.bind h fun a => R.pure (f a)

theorem ite {condition : Prop} [Decidable condition] {yes yes' no no' : Parser α}
    (hyes : R.Rel yes yes') (hno : R.Rel no no') :
    R.Rel (if condition then yes else no) (if condition then yes' else no') := by
  split
  · exact hyes
  · exact hno

theorem accept? (category : Category) :
    R.Rel (Grammar.accept? category) (Grammar.accept? category) :=
  R.bind (R.sees category) fun _ =>
    R.ite (R.bind R.peek fun _ => R.bind R.skip fun _ => R.pure _) (R.pure _)

theorem accepts (category : Category) :
    R.Rel (Grammar.accepts category) (Grammar.accepts category) :=
  R.bind (R.accept? category) fun _ => R.pure _

theorem expect (category : Category) {fault : SyntaxFault} (h : fault.Expects) :
    R.Rel (Grammar.expect category fault) (Grammar.expect category fault) := by
  refine R.bind (R.accept? category) fun found => ?_
  cases found with
  | some token => exact R.pure _
  | none => exact R.giveUp h

theorem expectSymbol (symbol : Symbol) (place : SymbolPlace) :
    R.Rel (Grammar.expectSymbol symbol place) (Grammar.expectSymbol symbol place) :=
  R.expect _ True.intro

theorem expectName (role : NameRole) :
    R.Rel (Grammar.expectName role) (Grammar.expectName role) :=
  R.expect _ True.intro

end

/-! ## Clauses without other rules -/

theorem superclassClause : R.Rel Grammar.superclassClause Grammar.superclassClause := by
  refine R.bind (R.accepts _) fun _ => R.ite ?_ (R.pure _)
  exact R.bind (R.expectName _) fun _ => R.bind R.freshId fun _ => R.pure _

theorem orTrue (condition : Option Expr) :
    R.Rel (Grammar.orTrue condition) (Grammar.orTrue condition) := by
  cases condition with
  | none => exact R.bind R.freshId fun _ => R.pure _
  | some condition => exact R.pure _

/-! ## Rules -/

section

-- A relation that looks at one side only does not determine the readers on the other one.
variable {sub : Readers} (sub' : Readers) (hsub : ∀ rule, R.Rel (sub rule) (sub' rule))

include hsub

theorem operators (level : Nat) (left : Expr) :
    R.Rel (Grammar.operators sub level left) (Grammar.operators sub' level left) := by
  refine R.bind R.peek fun operator => ?_
  cases infixLevel operator.category with
  | none => exact R.pure _
  | some tightness =>
      refine R.ite (R.pure _) (R.bind R.skip fun _ => ?_)
      refine R.bind (hsub (.operation _)) fun right => R.bind R.freshId fun id => ?_
      split
      · exact hsub _
      · exact hsub _

theorem unary : R.Rel (Grammar.unary sub) (Grammar.unary sub') := by
  refine R.bind R.peek fun operator => R.bind (R.sees _) fun bang =>
    R.bind (R.sees _) fun minus => R.ite ?_ (hsub .call)
  exact R.bind R.skip fun _ => R.bind (hsub .unary) fun operand =>
    R.bind R.freshId fun _ => R.pure _

theorem argumentList : R.Rel (Grammar.argumentList sub) (Grammar.argumentList sub') :=
  R.bind (R.sees _) fun _ => R.ite (R.pure _) (hsub (.arguments 0))

theorem suffixes (left : Expr) :
    R.Rel (Grammar.suffixes sub left) (Grammar.suffixes sub' left) := by
  refine R.bind (R.accepts _) fun called => R.ite ?_ ?_
  · exact R.bind (R.argumentList sub' hsub) fun _ => R.bind (R.expectSymbol _ _) fun _ =>
      R.bind R.freshId fun _ => hsub _
  · refine R.bind (R.accepts _) fun dotted => R.ite ?_ (R.pure _)
    exact R.bind (R.expectName _) fun _ => R.bind R.freshId fun _ => hsub _

theorem primary : R.Rel (Grammar.primary sub) (Grammar.primary sub') := by
  refine R.bind R.peek fun token => ?_
  cases literal? token.kind with
  | some value => exact R.bind R.skip fun _ => R.bind R.freshId fun _ => R.pure _
  | none =>
      refine R.bind (R.accepts _) fun _ => R.ite ?_ ?_
      · exact R.bind (R.expectSymbol _ _) fun _ => R.bind (R.expectName _) fun _ =>
          R.bind R.freshId fun _ => R.pure _
      refine R.bind (R.accepts _) fun _ => R.ite ?_ ?_
      · exact R.bind R.freshId fun _ => R.pure _
      refine R.bind (R.accepts _) fun _ => R.ite ?_ ?_
      · exact R.bind R.freshId fun _ => R.pure _
      refine R.bind (R.accepts _) fun _ => R.ite ?_ (R.giveUp True.intro)
      exact R.bind (hsub .expression) fun _ => R.bind (R.expectSymbol _ _) fun _ =>
        R.bind R.freshId fun _ => R.pure _

theorem arguments {count : Nat} (hlimit : R.Rel (checkLimit count .tooManyArguments)
    (checkLimit count .tooManyArguments)) :
    R.Rel (Grammar.arguments sub count) (Grammar.arguments sub' count) := by
  refine R.bind hlimit fun _ => R.bind (hsub .expression) fun argument =>
    R.bind (R.accepts _) fun more => R.ite ?_ (R.pure _)
  exact R.bind (hsub (.arguments _)) fun rest => R.pure _

theorem block : R.Rel (Grammar.block sub) (Grammar.block sub') :=
  R.bind (hsub (.declarations true)) fun _ => R.bind (R.expectSymbol _ _) fun _ => R.pure _

theorem parameterList : R.Rel (Grammar.parameterList sub) (Grammar.parameterList sub') :=
  R.bind (R.sees _) fun _ => R.ite (R.pure _) (hsub (.parameters 0))

theorem parameters {count : Nat} (hlimit : R.Rel (checkLimit count .tooManyParameters)
    (checkLimit count .tooManyParameters)) :
    R.Rel (Grammar.parameters sub count) (Grammar.parameters sub' count) := by
  refine R.bind hlimit fun _ => R.bind (R.expectName _) fun name =>
    R.bind (R.accepts _) fun more => R.ite ?_ (R.pure _)
  exact R.bind (hsub (.parameters _)) fun rest => R.pure _

theorem function (form : FunctionForm) :
    R.Rel (Grammar.function sub form) (Grammar.function sub' form) :=
  R.bind (R.expectName _) fun _ => R.bind (R.expectSymbol _ _) fun _ =>
    R.bind (R.parameterList sub' hsub) fun _ => R.bind (R.expectSymbol _ _) fun _ =>
      R.bind (R.expectSymbol _ _) fun _ => R.bind (R.block sub' hsub) fun _ => R.pure _

theorem methods : R.Rel (Grammar.methods sub) (Grammar.methods sub') := by
  refine R.bind (R.sees _) fun _ => R.bind R.atEnd fun _ => R.ite (R.pure _) ?_
  exact R.bind (R.function sub' hsub .method) fun _ => R.bind (hsub .methods) fun _ => R.pure _

theorem classDeclaration :
    R.Rel (Grammar.classDeclaration sub) (Grammar.classDeclaration sub') :=
  R.bind (R.expectName _) fun _ => R.bind R.superclassClause fun _ =>
    R.bind (R.expectSymbol _ _) fun _ => R.bind (hsub .methods) fun _ =>
      R.bind (R.expectSymbol _ _) fun _ => R.pure _

theorem initializerClause :
    R.Rel (Grammar.initializerClause sub) (Grammar.initializerClause sub') := by
  refine R.bind (R.accepts _) fun _ => R.ite ?_ (R.pure _)
  exact R.bind (hsub .expression) fun _ => R.pure _

theorem varDeclaration : R.Rel (Grammar.varDeclaration sub) (Grammar.varDeclaration sub') :=
  R.bind (R.expectName _) fun _ => R.bind (R.initializerClause sub' hsub) fun _ =>
    R.bind (R.expectSymbol _ _) fun _ => R.pure _

theorem plainDeclaration :
    R.Rel (Grammar.plainDeclaration sub) (Grammar.plainDeclaration sub') := by
  refine R.bind (R.accepts _) fun _ => R.ite (R.classDeclaration sub' hsub) ?_
  refine R.bind (R.accepts _) fun _ => R.ite ?_ ?_
  · exact R.bind (R.function sub' hsub .function) fun _ => R.pure _
  · exact R.bind (R.accepts _) fun _ =>
      R.ite (R.varDeclaration sub' hsub) (hsub .statement)

theorem declarations (inBlock : Bool) :
    R.Rel (Grammar.declarations sub inBlock) (Grammar.declarations sub' inBlock) := by
  refine R.bind (R.sees _) fun _ => R.bind R.atEnd fun _ => R.ite (R.pure _) ?_
  exact R.bind (hsub .declaration) fun _ => R.bind (hsub (.declarations _)) fun _ => R.pure _

theorem expressionStatement :
    R.Rel (Grammar.expressionStatement sub) (Grammar.expressionStatement sub') :=
  R.bind (hsub .expression) fun _ => R.bind (R.expectSymbol _ _) fun _ => R.pure _

theorem expressionUnless (symbol : Symbol) :
    R.Rel (Grammar.expressionUnless sub symbol) (Grammar.expressionUnless sub' symbol) := by
  refine R.bind (R.sees _) fun _ => R.ite (R.pure _) ?_
  exact R.bind (hsub .expression) fun _ => R.pure _

theorem forInitializer : R.Rel (Grammar.forInitializer sub) (Grammar.forInitializer sub') := by
  refine R.bind (R.accepts _) fun _ => R.ite (R.pure _) ?_
  exact R.bind (R.accepts _) fun _ => R.ite (R.map some (R.varDeclaration sub' hsub))
    (R.map some (R.expressionStatement sub' hsub))

theorem forStatement : R.Rel (Grammar.forStatement sub) (Grammar.forStatement sub') := by
  refine R.bind (R.expectSymbol _ _) fun _ =>
    R.bind (R.forInitializer sub' hsub) fun initializer =>
      R.bind (R.expressionUnless sub' hsub _) fun condition =>
        R.bind (R.expectSymbol _ _) fun _ =>
          R.bind (R.expressionUnless sub' hsub _) fun increment =>
            R.bind (R.expectSymbol _ _) fun _ => R.bind (hsub .statement) fun statement =>
              R.bind (R.orTrue condition) fun condition => ?_
  cases initializer with
  | none => exact R.pure _
  | some initializer => exact R.pure _

theorem ifStatement : R.Rel (Grammar.ifStatement sub) (Grammar.ifStatement sub') := by
  refine R.bind (R.expectSymbol _ _) fun _ => R.bind (hsub .expression) fun condition =>
    R.bind (R.expectSymbol _ _) fun _ => R.bind (hsub .statement) fun thenBranch =>
      R.bind (R.accepts _) fun _ => R.ite ?_ (R.pure _)
  exact R.bind (hsub .statement) fun elseBranch => R.pure _

theorem printStatement : R.Rel (Grammar.printStatement sub) (Grammar.printStatement sub') :=
  R.bind (hsub .expression) fun _ => R.bind (R.expectSymbol _ _) fun _ => R.pure _

theorem returnStatement (keyword : Token) :
    R.Rel (Grammar.returnStatement sub keyword) (Grammar.returnStatement sub' keyword) :=
  R.bind (R.expressionUnless sub' hsub _) fun _ => R.bind (R.expectSymbol _ _) fun _ => R.pure _

theorem whileStatement : R.Rel (Grammar.whileStatement sub) (Grammar.whileStatement sub') :=
  R.bind (R.expectSymbol _ _) fun _ => R.bind (hsub .expression) fun _ =>
    R.bind (R.expectSymbol _ _) fun _ => R.bind (hsub .statement) fun _ => R.pure _

theorem statement : R.Rel (Grammar.statement sub) (Grammar.statement sub') := by
  refine R.bind R.peek fun keyword => ?_
  refine R.bind (R.accepts _) fun _ => R.ite (R.forStatement sub' hsub) ?_
  refine R.bind (R.accepts _) fun _ => R.ite (R.ifStatement sub' hsub) ?_
  refine R.bind (R.accepts _) fun _ => R.ite (R.printStatement sub' hsub) ?_
  refine R.bind (R.accepts _) fun _ => R.ite (R.returnStatement sub' hsub _) ?_
  refine R.bind (R.accepts _) fun _ => R.ite (R.whileStatement sub' hsub) ?_
  refine R.bind (R.accepts _) fun _ => R.ite ?_ (R.expressionStatement sub' hsub)
  exact R.bind (R.block sub' hsub) fun _ => R.pure _

end

end Congruence

/-- A rule that notes no error by itself. -/
def Rule.IsPlain : Rule → Prop
  | expression | declaration | parameters _ | arguments _ => False
  | _ => True

/-- Reading by a plain rule is related if reading by the rules that it refers to is. -/
theorem Congruence.step (R : Congruence) {sub : Readers} (sub' : Readers)
    (hsub : ∀ rule, R.Rel (sub rule) (sub' rule)) {rule : Rule} (hplain : rule.IsPlain) :
    R.Rel (rule.step sub) (rule.step sub') := by
  cases rule with
  | declarations inBlock => exact R.declarations sub' hsub inBlock
  | statement => exact R.statement sub' hsub
  | methods => exact R.methods sub' hsub
  | operation level => exact R.bind (hsub .unary) fun _ => hsub _
  | operators level left => exact R.operators sub' hsub level left
  | unary => exact R.unary sub' hsub
  | call => exact R.bind (hsub .primary) fun _ => hsub _
  | suffixes left => exact R.suffixes sub' hsub left
  | primary => exact R.primary sub' hsub
  | expression | declaration | parameters | arguments => exact hplain.elim

end Grammar

end Lox
