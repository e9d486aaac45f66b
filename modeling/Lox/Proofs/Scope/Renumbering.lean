import Lox.Proofs.Scope.Copy

/-!
# Identities make no difference to the static rules

Programs that differ in the identities of their expressions only break the same rules, at the same
tokens and in the same order, and their expressions have the same distances.
-/

namespace Lox

namespace Scope

/-! ## Passes that do alike -/

/-- Whatever distances have been found already, the passes differ in distances only. -/
def Oblivious (pass pass' : Pass) : Prop :=
  ∀ (state : State) (distances : Distances), ∃ distances',
    (pass' { state with distances := distances }).2 =
      { (pass state).2 with distances := distances' }

namespace Oblivious

variable {first first' second second' : Pass}

theorem pure : Oblivious (Pure.pure ()) (Pure.pure ()) :=
  fun _ distances => ⟨distances, rfl⟩

theorem bind (hfirst : Oblivious first first') (hsecond : Oblivious second second') :
    Oblivious (first >>= fun _ => second) (first' >>= fun _ => second') := by
  intro state distances
  obtain ⟨between, hbetween⟩ := hfirst state distances
  obtain ⟨distances', hend⟩ := hsecond (first state).2 between
  refine ⟨distances', ?_⟩
  change (second' (first' { state with distances := distances }).2).2 = _
  rw [hbetween]
  exact hend

/-- A pass may look at everything but the distances. -/
theorem look {next next' : State → Pass}
    (hblind : ∀ state distances, next' { state with distances := distances } = next' state)
    (h : ∀ state, Oblivious (next state) (next' state)) :
    Oblivious (get >>= next) (get >>= next') := by
  intro state distances
  have hnext := h state state distances
  rwa [← hblind state distances] at hnext

theorem change {change : State → State}
    (h : ∀ state distances, change { state with distances := distances } =
      { change state with distances := distances }) : Oblivious (modify change) (modify change) :=
  fun state distances => ⟨distances, h state distances⟩

theorem ite {condition : Prop} [Decidable condition] {yes yes' no no' : Pass}
    (hyes : Oblivious yes yes') (hno : Oblivious no no') :
    Oblivious (if condition then yes else no) (if condition then yes' else no') := by
  split
  · exact hyes
  · exact hno

theorem note (fault : ScopeFault) (token : Token) :
    Oblivious (Scope.note fault token) (Scope.note fault token) :=
  .change fun _ _ => rfl

theorem openScope : Oblivious Scope.openScope Scope.openScope :=
  .change fun _ _ => rfl

theorem closeScope : Oblivious Scope.closeScope Scope.closeScope :=
  .change fun _ _ => rfl

theorem enter (name : String) (progress : Progress) :
    Oblivious (Scope.enter name progress) (Scope.enter name progress) := by
  refine .change fun state distances => ?_
  cases h : state.scopes <;> simp only [h]

theorem declare (name : Token) : Oblivious (Scope.declare name) (Scope.declare name) :=
  .look (fun _ _ => rfl) fun _ => .bind (.enter _ _) (.ite (.note _ _) .pure)

theorem define (name : Token) : Oblivious (Scope.define name) (Scope.define name) :=
  .enter _ _

/-- A use is recorded under any identity. -/
theorem record (node node' : NodeId) (name : Token) :
    Oblivious (Scope.record node name) (Scope.record node' name) := by
  intro state distances
  simp only [record_eq]
  exact ⟨_, rfl⟩

end Oblivious

/-! ## The resolver -/

mutual

theorem resolveExpr_oblivious (e : Expr) : Oblivious (resolveExpr e) (resolveExpr e.erase) := by
  cases e with
  | literal id value => exact .pure
  | grouping id inner => exact resolveExpr_oblivious inner
  | unary id operator operand => exact resolveExpr_oblivious operand
  | binary id left operator right =>
      exact .bind (resolveExpr_oblivious left) (resolveExpr_oblivious right)
  | logical id left operator right =>
      exact .bind (resolveExpr_oblivious left) (resolveExpr_oblivious right)
  | var id name =>
      exact .look (fun _ _ => rfl) fun _ => .ite (.bind (.note _ _) (.record _ _ _)) (.record _ _ _)
  | assign id name value => exact .bind (resolveExpr_oblivious value) (.record _ _ _)
  | call id callee paren arguments =>
      exact .bind (resolveExpr_oblivious callee) (resolveExprs_oblivious arguments)
  | get id object name => exact resolveExpr_oblivious object
  | set id object name value =>
      exact .bind (resolveExpr_oblivious value) (resolveExpr_oblivious object)
  | super_ id keyword method =>
      refine .look (fun _ _ => rfl) fun state => ?_
      cases state.class_ with
      | none => exact .note _ _
      | base => exact .note _ _
      | derived => exact .record _ _ _
  | this_ id keyword =>
      refine .look (fun _ _ => rfl) fun state => ?_
      cases state.class_ with
      | none => exact .note _ _
      | base => exact .record _ _ _
      | derived => exact .record _ _ _

theorem resolveExprs_oblivious (es : List Expr) :
    Oblivious (resolveExprs es) (resolveExprs (Expr.eraseAll es)) := by
  cases es with
  | nil => exact .pure
  | cons e rest => exact .bind (resolveExpr_oblivious e) (resolveExprs_oblivious rest)

end

theorem resolveExprOpt_oblivious (e : Option Expr) :
    Oblivious (resolveExprOpt e) (resolveExprOpt (e.map Expr.erase)) := by
  cases e with
  | none => exact .pure
  | some e => exact resolveExpr_oblivious e

theorem resolveParameters_oblivious (parameters : List Token) :
    Oblivious (resolveParameters parameters) (resolveParameters parameters) := by
  induction parameters with
  | nil => exact .pure
  | cons name rest ih => exact .bind (.declare name) (.bind (.define name) ih)

theorem inFunction_oblivious (kind : FunctionKind) (parameters : List Token) {body body' : Pass}
    (h : Oblivious body body') :
    Oblivious (inFunction kind parameters body) (inFunction kind parameters body') :=
  .look (fun _ _ => rfl) fun _ => .bind (.change fun _ _ => rfl) <| .bind .openScope <|
    .bind (resolveParameters_oblivious parameters) <| .bind h <| .bind .closeScope <|
      .change fun _ _ => rfl

theorem resolveSuperclass_oblivious (name : Token) (superclass : Option Expr) :
    Oblivious (resolveSuperclass name superclass)
      (resolveSuperclass name (superclass.map Expr.erase)) := by
  cases superclass with
  | none => exact .pure
  | some e =>
      have hrest : Oblivious
          (do
            modify fun state => { state with class_ := .derived }
            resolveExpr e
            openScope
            enter "super" .defined)
          (do
            modify fun state => { state with class_ := .derived }
            resolveExpr e.erase
            openScope
            enter "super" .defined) :=
        .bind (.change fun _ _ => rfl) <| .bind (resolveExpr_oblivious e) <|
          .bind .openScope (.enter _ _)
      cases e with
      | var id superName => exact .ite (.bind (.note _ _) hrest) hrest
      | _ => exact hrest

mutual

theorem resolveStmt_oblivious (s : Stmt) : Oblivious (resolveStmt s) (resolveStmt s.erase) := by
  cases s with
  | expression value => exact resolveExpr_oblivious value
  | print value => exact resolveExpr_oblivious value
  | var name initializer =>
      exact .bind (.declare name) (.bind (resolveExprOpt_oblivious initializer) (.define name))
  | block body => exact .bind .openScope (.bind (resolveStmts_oblivious body) .closeScope)
  | function declaration =>
      refine .bind ?_ (.bind ?_ (resolveFunction_oblivious .function declaration))
      · cases declaration
        exact .declare _
      · cases declaration
        exact .define _
  | class_ name superclass methods =>
      have hsome : (superclass.map Expr.erase).isSome = superclass.isSome := by simp
      simp only [Stmt.erase, resolveStmt, hsome]
      exact .look (fun _ _ => rfl) fun _ => .bind (.change fun _ _ => rfl) <|
        .bind (.declare name) <| .bind (.define name) <|
          .bind (resolveSuperclass_oblivious name superclass) <|
            .bind (resolveMethods_oblivious methods) <|
              .ite (.bind .closeScope (.change fun _ _ => rfl)) (.change fun _ _ => rfl)
  | ifThen condition thenBranch =>
      exact .bind (resolveExpr_oblivious condition) (resolveStmt_oblivious thenBranch)
  | ifElse condition thenBranch elseBranch =>
      exact .bind (resolveExpr_oblivious condition)
        (.bind (resolveStmt_oblivious thenBranch) (resolveStmt_oblivious elseBranch))
  | while_ condition body =>
      exact .bind (resolveExpr_oblivious condition) (resolveStmt_oblivious body)
  | return_ keyword value =>
      have hsome : (value.map Expr.erase).isSome = value.isSome := by simp
      simp only [Stmt.erase, resolveStmt, hsome]
      have hvalue := resolveExprOpt_oblivious value
      have hcheck : Oblivious
          (do
            if value.isSome ∧ (← get).function = .initializer then
              note .valueFromInitializer keyword
            resolveExprOpt value)
          (do
            if value.isSome ∧ (← get).function = .initializer then
              note .valueFromInitializer keyword
            resolveExprOpt (value.map Expr.erase)) :=
        .look (fun _ _ => rfl) fun _ => .ite (.bind (.note _ _) hvalue) hvalue
      exact .look (fun _ _ => rfl) fun _ => .ite (.bind (.note _ _) hcheck) hcheck

theorem resolveStmts_oblivious (statements : List Stmt) :
    Oblivious (resolveStmts statements) (resolveStmts (Stmt.eraseAll statements)) := by
  cases statements with
  | nil => exact .pure
  | cons s rest => exact .bind (resolveStmt_oblivious s) (resolveStmts_oblivious rest)

theorem resolveFunction_oblivious (kind : FunctionKind) (declaration : FunctionDecl) :
    Oblivious (resolveFunction kind declaration) (resolveFunction kind declaration.erase) := by
  cases declaration with
  | mk name parameters body =>
      exact inFunction_oblivious kind parameters (resolveStmts_oblivious body)

theorem resolveMethods_oblivious (methods : List FunctionDecl) :
    Oblivious (resolveMethods methods) (resolveMethods (FunctionDecl.eraseAll methods)) := by
  cases methods with
  | nil => exact .pure
  | cons method rest =>
      have hkind : methodKind method.erase = methodKind method := by cases method; rfl
      simp only [FunctionDecl.eraseAll, resolveMethods, hkind]
      exact .bind .openScope <| .bind (.enter _ _) <|
        .bind (resolveFunction_oblivious (methodKind method) method) <|
          .bind .closeScope (resolveMethods_oblivious rest)

end

/-- Programs without identities break the same rules as with them. -/
theorem resolve_eraseAll (program : List Stmt) :
    (resolve (Stmt.eraseAll program)).2 = (resolve program).2 := by
  obtain ⟨distances, hstate⟩ := resolveStmts_oblivious program .start ∅
  have herrors := congrArg State.errors hstate
  exact herrors

end Scope

/-! ## Programs that differ in identities only -/

theorem faithful_same : Faithful fun token => token :=
  ⟨fun _ => rfl, fun _ => rfl⟩

/-- A program with other identities breaks the same rules, and its expressions have the same
distances. -/
theorem resolve_renumbered {program program' : List Stmt}
    (hcopy : Stmt.eraseAll program' = Stmt.eraseAll program)
    (hnodup : (Stmt.nodesAll program).Nodup) (hnodup' : (Stmt.nodesAll program').Nodup) :
    (Scope.resolve program').2 = (Scope.resolve program).2 ∧
      ∀ id id', Beside (Stmt.nodesAll program) (Stmt.nodesAll program') id id' →
        (Scope.resolve program').1[id']? = (Scope.resolve program).1[id]? := by
  refine ⟨?_, fun id id' hbeside => ?_⟩
  · rw [← Scope.resolve_eraseAll program', hcopy, Scope.resolve_eraseAll]
  · rw [← Stmt.mapTokensAll_id (Stmt.eraseAll program)] at hcopy
    have hsites := sites_ofCopy rfl hnodup (twin_ofCopy faithful_same hcopy) []
    refine distance_ofCopy rfl hnodup hnodup' hsites (fun place u hmem => ?_)
      (fun id _ hunused => ?_) hbeside
    · exact Scope.matched_of_resolve rfl (nodup_useNodes hnodup') hmem
    · exact Scope.untouched_of_resolve rfl hunused

end Lox
