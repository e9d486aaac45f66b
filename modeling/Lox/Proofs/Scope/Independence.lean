import Lox.Proofs.Grammar.Identity
import Lox.Proofs.Scope.Copy
import Lox.Token.Stream

/-!
# Statements at the top level are resolved independently

A pass adds errors and distances that do not depend on those found before, and it leaves the scopes
and the kinds of function and class as they are but for the names that it declares in the innermost
scope. At the top level no scope keeps names, so what is found in a list of statements is found in
its parts.
-/

namespace Lox

namespace Scope

/-! ## Names entered into the innermost scope -/

/-- The scopes with readable names entered into the innermost. -/
def enterAll (names : List String) (scopes : List (Table Progress)) : List (Table Progress) :=
  names.foldl (fun scopes name => enterInto name .defined scopes) scopes

/-- The global scope keeps no names. -/
theorem enterAll_top (names : List String) : enterAll names [] = [] := by
  induction names with
  | nil => rfl
  | cons name rest ih => exact ih

theorem enterAll_append (xs ys : List String) (scopes : List (Table Progress)) :
    enterAll (xs ++ ys) scopes = enterAll ys (enterAll xs scopes) :=
  List.foldl_append

theorem tail_enterInto (name : String) (progress : Progress) (scopes : List (Table Progress)) :
    (enterInto name progress scopes).tail = scopes.tail := by
  cases scopes <;> rfl

theorem tail_enterAll (names : List String) (scopes : List (Table Progress)) :
    (enterAll names scopes).tail = scopes.tail := by
  induction names generalizing scopes with
  | nil => rfl
  | cons name rest ih => exact (ih _).trans (tail_enterInto name .defined scopes)

theorem replace_replace {α : Type} (name : String) (value later : α)
    (entries : List (String × α)) :
    Table.replace name later (Table.replace name value entries) =
      Table.replace name later entries := by
  induction entries with
  | nil => simp [Table.replace]
  | cons entry rest ih =>
      obtain ⟨key, old⟩ := entry
      by_cases hname : key = name <;> simp [Table.replace, hname, ih]

/-- A name that is entered twice stands as it was entered last. -/
theorem enterInto_enterInto (name : String) (progress later : Progress)
    (scopes : List (Table Progress)) :
    enterInto name later (enterInto name progress scopes) = enterInto name later scopes := by
  cases scopes with
  | nil => rfl
  | cons scope outer => simp only [enterInto, Table.insert, replace_replace]

/-! ## Distances -/

/-- The distances with further entries. -/
def Distances.extend (distances : Distances) (entries : List (NodeId × Nat)) : Distances :=
  entries.foldl (fun distances entry => distances.insert entry.1 entry.2) distances

theorem Distances.extend_append (distances : Distances) (xs ys : List (NodeId × Nat)) :
    distances.extend (xs ++ ys) = (distances.extend xs).extend ys :=
  List.foldl_append

/-- What further entries say comes before what was known. -/
theorem Distances.getElem?_extend (distances : Distances) (entries : List (NodeId × Nat))
    (node : NodeId) :
    (distances.extend entries)[node]? =
      ((∅ : Distances).extend entries)[node]?.or distances[node]? := by
  induction entries generalizing distances with
  | nil => simp [Distances.extend]
  | cons entry rest ih =>
      have hrest := ih (distances.insert entry.1 entry.2)
      have hempty := ih ((∅ : Distances).insert entry.1 entry.2)
      change (Distances.extend (distances.insert entry.1 entry.2) rest)[node]? =
        (Distances.extend ((∅ : Distances).insert entry.1 entry.2) rest)[node]?.or distances[node]?
      rw [hrest, hempty, Option.or_assoc]
      congr 1
      by_cases hnode : entry.1 = node <;> simp [Std.TreeMap.getElem?_insert, hnode]

/-! ## What a pass leaves behind -/

/-- Between two states a pass changes scopes and kinds, and it adds errors and distances, the same
whatever errors and distances there were before. -/
def Leads (pass : Pass) (before after : State) : Prop :=
  ∃ (found : List ScopeError) (entries : List (NodeId × Nat)),
    ∀ (errors : List ScopeError) (distances : Distances),
      (pass { before with errors := errors, distances := distances }).2 =
        { after with errors := errors ++ found, distances := distances.extend entries }

namespace Leads

variable {first second : Pass} {before middle after : State}

theorem pure : Leads (Pure.pure ()) before before := by
  refine ⟨[], [], fun errors distances => ?_⟩
  rw [List.append_nil]
  rfl

theorem bind (hfirst : Leads first before middle) (hsecond : Leads second middle after) :
    Leads (first >>= fun _ => second) before after := by
  obtain ⟨found, entries, hfirst⟩ := hfirst
  obtain ⟨found', entries', hsecond⟩ := hsecond
  refine ⟨found ++ found', entries ++ entries', fun errors distances => ?_⟩
  change (second (first { before with errors := errors, distances := distances }).2).2 = _
  rw [hfirst, hsecond, List.append_assoc, Distances.extend_append]

/-- A pass may look at everything but the errors and the distances. -/
theorem look {next : State → Pass}
    (hblind : ∀ errors distances,
      next { before with errors := errors, distances := distances } = next before)
    (h : Leads (next before) before after) : Leads (get >>= next) before after := by
  obtain ⟨found, entries, h⟩ := h
  refine ⟨found, entries, fun errors distances => ?_⟩
  rw [← h, bind_get_eq, hblind]

theorem change {change : State → State}
    (h : ∀ errors distances, change { before with errors := errors, distances := distances } =
      { change before with errors := errors, distances := distances }) :
    Leads (modify change) before (change before) := by
  refine ⟨[], [], fun errors distances => ?_⟩
  rw [modify_eq, h, List.append_nil]
  rfl

theorem ite {condition : Prop} [Decidable condition] {yes no : Pass} (hyes : Leads yes before after)
    (hno : Leads no before after) : Leads (if condition then yes else no) before after := by
  split
  · exact hyes
  · exact hno

theorem note (fault : ScopeFault) (token : Token) : Leads (Scope.note fault token) before before :=
  ⟨[⟨fault, token⟩], [], fun _ _ => rfl⟩

theorem openScope :
    Leads Scope.openScope before { before with scopes := .empty :: before.scopes } :=
  .change fun _ _ => rfl

theorem closeScope : Leads Scope.closeScope before { before with scopes := before.scopes.tail } :=
  .change fun _ _ => rfl

theorem enter (name : String) (progress : Progress) :
    Leads (Scope.enter name progress) before
      { before with scopes := enterInto name progress before.scopes } := by
  refine ⟨[], [], fun errors distances => ?_⟩
  rw [enter_eq, List.append_nil]
  rfl

theorem declare (name : Token) :
    Leads (Scope.declare name) before
      { before with scopes := enterInto name.lexeme .declared before.scopes } :=
  .look (fun _ _ => rfl) (.bind (.enter _ _) (.ite (.note _ _) .pure))

theorem define (name : Token) :
    Leads (Scope.define name) before
      { before with scopes := enterInto name.lexeme .defined before.scopes } :=
  .enter _ _

theorem record (node : NodeId) (name : Token) : Leads (Scope.record node name) before before := by
  refine ⟨[], (distance? name.lexeme before.scopes).toList.map (node, ·),
    fun errors distances => ?_⟩
  rw [record_eq, List.append_nil]
  simp only
  cases distance? name.lexeme before.scopes <;> rfl

/-- A name that is declared and then defined is entered, whatever comes between. -/
theorem initializer (name : Token) (h : ∀ state, Leads first state state) :
    Leads (Scope.declare name >>= fun _ => first >>= fun _ => Scope.define name) before
      { before with scopes := enterAll [name.lexeme] before.scopes } := by
  have hdeclare : Leads (Scope.declare name) before _ := declare name
  have hdefine := hdeclare.bind ((h _).bind (define name))
  simp only [enterInto_enterInto] at hdefine
  exact hdefine

/-- A name that is declared and defined at once is entered. -/
theorem binding (name : Token)
    (h : Leads second { before with scopes := enterAll [name.lexeme] before.scopes } after) :
    Leads (Scope.declare name >>= fun _ => Scope.define name >>= fun _ => second) before after := by
  have hdeclare : Leads (Scope.declare name) before _ := declare name
  have hdefine := hdeclare.bind (define name)
  simp only [enterInto_enterInto] at hdefine
  exact hdefine.bind h

end Leads

/-! ## The resolver -/

mutual

/-- An expression leaves everything around it as it is. -/
theorem resolveExpr_leads (e : Expr) (before : State) : Leads (resolveExpr e) before before := by
  cases e with
  | literal id value => exact .pure
  | grouping id inner => exact resolveExpr_leads inner before
  | unary id operator operand => exact resolveExpr_leads operand before
  | binary id left operator right =>
      exact .bind (resolveExpr_leads left before) (resolveExpr_leads right before)
  | logical id left operator right =>
      exact .bind (resolveExpr_leads left before) (resolveExpr_leads right before)
  | var id name =>
      exact .look (fun _ _ => rfl) (.ite (.bind (.note _ _) (.record _ _)) (.record _ _))
  | assign id name value => exact .bind (resolveExpr_leads value before) (.record _ _)
  | call id callee paren arguments =>
      exact .bind (resolveExpr_leads callee before) (resolveExprs_leads arguments before)
  | get id object name => exact resolveExpr_leads object before
  | set id object name value =>
      exact .bind (resolveExpr_leads value before) (resolveExpr_leads object before)
  | super_ id keyword method =>
      refine .look (fun _ _ => rfl) ?_
      cases before.class_ with
      | none => exact .note _ _
      | base => exact .note _ _
      | derived => exact .record _ _
  | this_ id keyword =>
      refine .look (fun _ _ => rfl) ?_
      cases before.class_ with
      | none => exact .note _ _
      | base => exact .record _ _
      | derived => exact .record _ _

theorem resolveExprs_leads (es : List Expr) (before : State) :
    Leads (resolveExprs es) before before := by
  cases es with
  | nil => exact .pure
  | cons e rest => exact .bind (resolveExpr_leads e before) (resolveExprs_leads rest before)

end

theorem resolveExprOpt_leads (e : Option Expr) (before : State) :
    Leads (resolveExprOpt e) before before := by
  cases e with
  | none => exact .pure
  | some e => exact resolveExpr_leads e before

theorem resolveParameters_leads (parameters : List Token) (before : State) :
    Leads (resolveParameters parameters) before
      { before with scopes := enterAll (parameters.map Token.lexeme) before.scopes } := by
  induction parameters generalizing before with
  | nil => exact .pure
  | cons name rest ih => exact .binding name (ih _)

/-- A function leaves nothing behind if its body leaves at most names in the scope of the function. -/
theorem inFunction_leads (kind : FunctionKind) (parameters : List Token) {body : Pass}
    (names : List String)
    (h : ∀ state, Leads body state { state with scopes := enterAll names state.scopes })
    (before : State) : Leads (inFunction kind parameters body) before before := by
  refine .look (fun _ _ => rfl) <| .bind (.change fun _ _ => rfl) <| .bind .openScope <|
    .bind (resolveParameters_leads parameters _) <| .bind (h _) <| .bind .closeScope ?_
  have hrestore : Leads (modify fun state => { state with function := before.function })
      { before with
        function := kind
        scopes := (enterAll names
          (enterAll (parameters.map Token.lexeme) (.empty :: before.scopes))).tail }
      { before with
        scopes := (enterAll names
          (enterAll (parameters.map Token.lexeme) (.empty :: before.scopes))).tail } :=
    .change fun _ _ => rfl
  simpa only [tail_enterAll, List.tail_cons] using hrestore

/-- The clause of a superclass opens a scope with `super` in a derived class. -/
theorem resolveSuperclass_leads (name : Token) (superclass : Expr) (before : State) :
    Leads (resolveSuperclass name (some superclass)) before
      { before with
        class_ := .derived
        scopes := enterInto "super" .defined (.empty :: before.scopes) } := by
  have hrest : Leads
      (do
        modify fun state => { state with class_ := .derived }
        resolveExpr superclass
        openScope
        enter "super" .defined) before
      { before with
        class_ := .derived
        scopes := enterInto "super" .defined (.empty :: before.scopes) } :=
    .bind (.change fun _ _ => rfl) <| .bind (resolveExpr_leads superclass _) <|
      .bind .openScope (.enter _ _)
  cases superclass with
  | var id superName => exact .ite (.bind (.note _ _) hrest) hrest
  | _ => exact hrest

mutual

/-- A statement leaves the kinds as they are, and of the scopes everything but the names that it
declares. -/
theorem resolveStmt_leads (s : Stmt) (before : State) :
    Leads (resolveStmt s) before { before with scopes := enterAll s.declares before.scopes } := by
  cases s with
  | expression value => exact resolveExpr_leads value before
  | print value => exact resolveExpr_leads value before
  | var name initializer => exact .initializer name (resolveExprOpt_leads initializer)
  | block body =>
      have hopen : Leads openScope before _ := .openScope
      have hbody := hopen.bind ((resolveStmts_leads body _).bind .closeScope)
      simp only [tail_enterAll, List.tail_cons] at hbody
      exact hbody
  | function declaration =>
      exact .binding declaration.name (resolveFunction_leads .function declaration _)
  | class_ name superclass methods =>
      refine .look (fun _ _ => rfl) <| .bind (.change fun _ _ => rfl) <| .binding name ?_
      cases superclass with
      | none => exact .bind .pure <| .bind (resolveMethods_leads methods _) (.change fun _ _ => rfl)
      | some superclass =>
          refine .bind (resolveSuperclass_leads name superclass _) <|
            .bind (resolveMethods_leads methods _) <| .bind .closeScope ?_
          exact .change fun _ _ => rfl
  | ifThen condition thenBranch =>
      exact .bind (resolveExpr_leads condition before) (resolveStmt_leads thenBranch before)
  | ifElse condition thenBranch elseBranch =>
      rw [Stmt.declares, enterAll_append]
      exact .bind (resolveExpr_leads condition before)
        (.bind (resolveStmt_leads thenBranch before) (resolveStmt_leads elseBranch _))
  | while_ condition body =>
      exact .bind (resolveExpr_leads condition before) (resolveStmt_leads body before)
  | return_ keyword value =>
      have hvalue := resolveExprOpt_leads value before
      have hcheck : Leads
          (do
            if value.isSome ∧ (← get).function = .initializer then
              note .valueFromInitializer keyword
            resolveExprOpt value) before before :=
        .look (fun _ _ => rfl) (.ite (.bind (.note _ _) hvalue) hvalue)
      exact .look (fun _ _ => rfl) (.ite (.bind (.note _ _) hcheck) hcheck)

theorem resolveStmts_leads (statements : List Stmt) (before : State) :
    Leads (resolveStmts statements) before
      { before with scopes := enterAll (statements.flatMap Stmt.declares) before.scopes } := by
  cases statements with
  | nil => exact .pure
  | cons s rest =>
      rw [List.flatMap_cons, enterAll_append]
      exact .bind (resolveStmt_leads s before) (resolveStmts_leads rest _)

theorem resolveFunction_leads (kind : FunctionKind) (declaration : FunctionDecl) (before : State) :
    Leads (resolveFunction kind declaration) before before := by
  cases declaration with
  | mk name parameters body =>
      exact inFunction_leads kind parameters _ (resolveStmts_leads body) before

theorem resolveMethods_leads (methods : List FunctionDecl) (before : State) :
    Leads (resolveMethods methods) before before := by
  cases methods with
  | nil => exact .pure
  | cons method rest =>
      refine .bind .openScope <| .bind (.enter _ _) <|
        .bind (resolveFunction_leads (methodKind method) method _) <| .bind .closeScope ?_
      exact resolveMethods_leads rest before

end

/-! ## Programs -/

theorem resolveStmts_append (above below : List Stmt) (state : State) :
    (resolveStmts (above ++ below) state).2 =
      (resolveStmts below (resolveStmts above state).2).2 := by
  induction above generalizing state with
  | nil => rfl
  | cons s rest ih => exact ih (resolveStmt s state).2

/-- What is found in a program is found whatever was found before. -/
theorem resolve_leads (program : List Stmt) :
    ∃ entries, (resolve program).1 = (∅ : Distances).extend entries ∧
      ∀ (errors : List ScopeError) (distances : Distances),
        (resolveStmts program { State.start with errors := errors, distances := distances }).2 =
          { State.start with
            errors := errors ++ (resolve program).2
            distances := distances.extend entries } := by
  have hleads : Leads (resolveStmts program) .start .start := by
    have htop := resolveStmts_leads program .start
    rw [show State.start.scopes = [] from rfl, enterAll_top] at htop
    exact htop
  obtain ⟨found, entries, h⟩ := hleads
  have hstart : (resolveStmts program .start).2 =
      { State.start with errors := found, distances := (∅ : Distances).extend entries } := h [] ∅
  have herrors : (resolve program).2 = found := congrArg State.errors hstart
  rw [herrors]
  exact ⟨entries, congrArg State.distances hstart, h⟩

/-- The errors of a program are those of its parts in order, and its distances are those of its
parts, the later before the earlier. -/
theorem resolve_append (above below : List Stmt) :
    (resolve (above ++ below)).2 = (resolve above).2 ++ (resolve below).2 ∧
      ∀ node : NodeId, (resolve (above ++ below)).1[node]? =
        (resolve below).1[node]?.or (resolve above).1[node]? := by
  obtain ⟨entries, hdistances, habove⟩ := resolve_leads above
  obtain ⟨entries', hdistances', hbelow⟩ := resolve_leads below
  have hwhole : (resolveStmts (above ++ below) .start).2 =
      { State.start with
        errors := (resolve above).2 ++ (resolve below).2
        distances := (resolve above).1.extend entries' } := by
    have hfirst : (resolveStmts above .start).2 =
        { State.start with errors := (resolve above).2, distances := (resolve above).1 } := by
      rw [hdistances]
      exact habove [] ∅
    rw [resolveStmts_append, hfirst, hbelow]
  refine ⟨congrArg State.errors hwhole, fun node => ?_⟩
  have hnode : (resolve (above ++ below)).1 = (resolve above).1.extend entries' :=
    congrArg State.distances hwhole
  rw [hnode, Distances.getElem?_extend, ← hdistances']

/-! ## Programs that were read -/

/-- Statements that were read one program after the other. Each reading takes its identities from the
first unused one on, and in between identities may be used up. -/
inductive Built : NodeId → List Stmt → Prop where
  | start (nextId : NodeId) : Built nextId []
  | read {nextId : NodeId} {statements : List Stmt} (tokens : List Token) :
      Built nextId statements →
        Built (Grammar.parse tokens nextId).nextId
          (statements ++ (Grammar.parse tokens nextId).statements)
  | skip {nextId later : NodeId} {statements : List Stmt} :
      nextId ≤ later → Built nextId statements → Built later statements

theorem Built.fresh {nextId : NodeId} {statements : List Stmt} (h : Built nextId statements) :
    Grammar.Fresh (Stmt.nodesAll statements) 0 nextId := by
  induction h with
  | start nextId => exact .nil (Nat.zero_le nextId)
  | read tokens _ ih =>
      rw [Stmt.nodesAll_append]
      exact ih.append (Grammar.parse_fresh tokens _)
  | skip hle _ ih => exact ih.widen hle

theorem nodesAll_eq_flatMap (statements : List Stmt) :
    Stmt.nodesAll statements = statements.flatMap Stmt.nodes := by
  induction statements with
  | nil => rfl
  | cons s rest ih => rw [Stmt.nodesAll, List.flatMap_cons, ih]

/-- Some of the statements have some of the identities. -/
theorem nodesAll_subperm {part whole : List Stmt} (h : part.Subperm whole) :
    (Stmt.nodesAll part).Subperm (Stmt.nodesAll whole) := by
  obtain ⟨chosen, hperm, hsublist⟩ := h
  rw [nodesAll_eq_flatMap, nodesAll_eq_flatMap]
  exact ⟨chosen.flatMap Stmt.nodes, hperm.flatMap fun s _ => .refl _, hsublist.flatMap Stmt.nodes⟩

/-- Only expressions of a program have distances in it. -/
theorem mem_nodesAll_of_distance {program : List Stmt} {node : NodeId}
    (h : node ∈ (resolve program).1) : node ∈ Stmt.nodesAll program := by
  by_cases huse : node ∈ useNodes (programSites program)
  · exact mem_nodesAll_of_use huse
  · have hnone := untouched_of_resolve rfl huse
    rw [← Std.TreeMap.isSome_getElem?_iff_mem, hnone] at h
    cases h

/-- Of statements that were read, one list resolved after another has the errors of the first and then
those of the second, and as distances those of the one and those of the other, which have no use in
common. A statement, whatever rules it breaks, leaves the kinds of function and class as they were and
of the scopes everything but the names that it declares in the innermost, so at the top level
everything. -/
theorem resolve_independent {nextId : NodeId} {statements above below : List Stmt}
    (hbuilt : Built nextId statements) (hparts : (above ++ below).Subperm statements) :
    (resolve (above ++ below)).2 = (resolve above).2 ++ (resolve below).2 ∧
      (∀ (node : NodeId) (distance : Nat), (resolve (above ++ below)).1[node]? = some distance ↔
        (resolve above).1[node]? = some distance ∨ (resolve below).1[node]? = some distance) ∧
      (∀ node ∈ (resolve above).1, node ∉ (resolve below).1) ∧
      ∀ (s : Stmt) (state : State),
        (resolveStmt s state).2.function = state.function ∧
        (resolveStmt s state).2.class_ = state.class_ ∧
        (resolveStmt s state).2.scopes = enterAll s.declares state.scopes ∧
        (state.scopes = [] → (resolveStmt s state).2.scopes = []) := by
  obtain ⟨herrors, hdistances⟩ := resolve_append above below
  have hdisjoint : ∀ node ∈ (resolve above).1, node ∉ (resolve below).1 := by
    intro node habove hbelow
    have hnodup := (hbuilt.fresh.subperm (nodesAll_subperm hparts)).nodup
    rw [Stmt.nodesAll_append] at hnodup
    exact (List.nodup_append.mp hnodup).2.2 node (mem_nodesAll_of_distance habove) node
      (mem_nodesAll_of_distance hbelow) rfl
  refine ⟨herrors, fun node distance => ?_, hdisjoint, fun s state => ?_⟩
  · rw [hdistances, Option.or_eq_some_iff]
    constructor
    · rintro (hbelow | ⟨-, habove⟩)
      · exact .inr hbelow
      · exact .inl habove
    · rintro (habove | hbelow)
      · have hmem : node ∈ (resolve above).1 := by
          rw [← Std.TreeMap.isSome_getElem?_iff_mem, habove]
          rfl
        exact .inr ⟨Std.TreeMap.getElem?_eq_none (hdisjoint node hmem), habove⟩
      · exact .inl hbelow
  · obtain ⟨found, entries, h⟩ := resolveStmt_leads s state
    have hstate : (resolveStmt s state).2 =
        { state with
          scopes := enterAll s.declares state.scopes
          errors := state.errors ++ found
          distances := state.distances.extend entries } := h state.errors state.distances
    rw [hstate]
    refine ⟨rfl, rfl, rfl, fun htop => ?_⟩
    simp only [htop, enterAll_top]

/-- Statements of which two break a rule. -/
def faultyProgram : Grammar.Program :=
  Grammar.parse (tokens "return; \x7bvar a = a;\x7d") 0

/-- Statements read after them, of which one breaks a rule. -/
def laterProgram : Grammar.Program :=
  Grammar.parse (tokens "print this; \x7bvar b; b;\x7d") faultyProgram.nextId

theorem resolve_independent_faulty :
    (resolve (faultyProgram.statements ++ laterProgram.statements)).2.map ScopeError.fault =
        [.returnOutsideFunction, .readInInitializer, .thisOutsideClass] ∧
      Built laterProgram.nextId (faultyProgram.statements ++ laterProgram.statements) ∧
      ∀ node ∈ (resolve faultyProgram.statements).1, node ∉ (resolve laterProgram.statements).1 := by
  have hbuilt : Built laterProgram.nextId (faultyProgram.statements ++ laterProgram.statements) :=
    .read _ (.read _ (.start 0))
  obtain ⟨herrors, -, hdisjoint, -⟩ := resolve_independent hbuilt (List.Subperm.refl _)
  refine ⟨?_, hbuilt, hdisjoint⟩
  rw [herrors]
  rfl

end Scope

end Lox
