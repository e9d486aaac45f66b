import Lox.Proofs.Grammar.Advance
import Lox.Proofs.Syntax.Nodes

/-!
# Identities are handed out once

The expressions of the trees that a parse gives have identities that are pairwise different and
were all handed out during the parse. This holds for faulty input too, and for the trees that are
taken apart and put together again on the way.
-/

namespace Lox.Grammar

variable {α β : Type}

/-! ## Fresh identities -/

/-- Pairwise different identities from `low` on and before `high`. -/
structure Fresh (ids : List Nat) (low high : Nat) : Prop where
  nodup : ids.Nodup
  bounds : ∀ id ∈ ids, low ≤ id ∧ id < high
  le : low ≤ high

namespace Fresh

variable {xs ys : List Nat} {low middle high : Nat}

theorem nil (h : low ≤ high) : Fresh [] low high :=
  ⟨List.nodup_nil, by simp, h⟩

theorem subperm (h : Fresh xs low high) (hsub : ys.Subperm xs) : Fresh ys low high := by
  obtain ⟨zs, hperm, hsublist⟩ := hsub
  refine ⟨hperm.nodup_iff.mp (h.nodup.sublist hsublist), ?_, h.le⟩
  intro id hid
  exact h.bounds id (hsublist.subset (hperm.mem_iff.mpr hid))

theorem append (hx : Fresh xs low middle) (hy : Fresh ys middle high) :
    Fresh (xs ++ ys) low high := by
  refine ⟨List.nodup_append.mpr ⟨hx.nodup, hy.nodup, ?_⟩, ?_, Nat.le_trans hx.le hy.le⟩
  · intro id hid id' hid' heq
    have hlt := (hx.bounds id hid).2
    have hle := (hy.bounds id' hid').1
    omega
  · intro id hid
    have hx' := hx.le
    have hy' := hy.le
    rcases List.mem_append.mp hid with hid | hid
    · have := hx.bounds id hid
      omega
    · have := hy.bounds id hid
      omega

theorem widen (h : Fresh xs low middle) (hle : middle ≤ high) : Fresh xs low high := by
  simpa using h.append (nil hle)

theorem concat (h : Fresh xs low middle) : Fresh (xs ++ [middle]) low (middle + 1) := by
  refine h.append ⟨by simp, ?_, Nat.le_succ middle⟩
  intro id hid
  rw [List.mem_singleton] at hid
  omega

end Fresh

/-! ## Parsers that draw identities -/

/-- From a cursor at which the identities `old` are fresh, the parser gives trees with fresh
identities: those of `old` that it keeps and those that it draws. -/
def Draws (old : List NodeId) (parser : Parser α) (ids : α → List NodeId) : Prop :=
  ∀ setting before a after low, result parser setting before = .ok a after →
    Fresh old low before.nextId → Fresh (ids a) low after.nextId

namespace Draws

variable {old xs : List NodeId} {ids : α → List NodeId} {ids' : β → List NodeId}

theorem pure (a : α) (h : (ids a).Subperm old) : Draws old (Pure.pure a) ids := by
  intro setting before b after low hok hold
  cases hok
  exact hold.subperm h

theorem bind {first : Parser α} {second : α → Parser β} (hfirst : Draws old first ids)
    (hsecond : ∀ a, Draws (ids a) (second a) ids') : Draws old (first >>= second) ids' := by
  intro setting before b after low hok hold
  obtain ⟨a, middle, ha, hb⟩ := bind_eq_ok.mp hok
  exact hsecond a setting middle b after low hb (hfirst setting before a middle low ha hold)

theorem map (f : α → β) {parser : Parser α} (h : Draws old parser fun a => ids' (f a)) :
    Draws old (f <$> parser) ids' := by
  rw [map_eq_bind]
  exact h.bind fun a => pure _ (List.Subperm.refl _)

theorem ite {condition : Prop} [Decidable condition] {yes no : Parser α}
    (hyes : Draws old yes ids) (hno : Draws old no ids) :
    Draws old (if condition then yes else no) ids := by
  split
  · exact hyes
  · exact hno

/-- What was drawn before may be forgotten or put in another order. -/
theorem of_subperm {parser : Parser α} (h : Draws xs parser ids) (hsub : xs.Subperm old) :
    Draws old parser ids := by
  intro setting before a after low hok hold
  exact h setting before a after low hok (hold.subperm hsub)

theorem giveUp (fault : SyntaxFault) : Draws old (Grammar.giveUp fault) ids := by
  intro setting before a after low hok
  rw [result_giveUp] at hok
  cases hok

/-- What a parser draws by itself comes behind what was drawn before. -/
theorem frame {parser : Parser α} (h : Draws [] parser ids) (old : List NodeId) :
    Draws old parser fun a => old ++ ids a := by
  intro setting before a after low hok hold
  exact hold.append (h setting before a after before.nextId hok (Fresh.nil (Nat.le_refl _)))

/-- A parser that gives no trees keeps what was drawn before. -/
theorem keep {parser : Parser α} (h : Advances parser) : Draws old parser fun _ => old := by
  intro setting before a after low hok hold
  exact hold.widen (h.of_ok hok).nextId

/-- A parser that gives no trees comes first. -/
theorem after {first : Parser α} {second : α → Parser β} (hfirst : Advances first)
    (hsecond : ∀ a, Draws old (second a) ids') : Draws old (first >>= second) ids' :=
  (keep hfirst).bind hsecond

/-- A parser that draws by itself comes first. -/
theorem along {first : Parser α} {second : α → Parser β} (hfirst : Draws [] first ids)
    (hsecond : ∀ a, Draws (old ++ ids a) (second a) ids') : Draws old (first >>= second) ids' :=
  (hfirst.frame old).bind hsecond

theorem freshId : Draws old Grammar.freshId fun id => old ++ [id] := by
  intro setting before id after low hok hold
  rw [result_freshId] at hok
  cases hok
  exact hold.concat

end Draws

/-! ## What rules draw -/

/-- The identities in what a rule gives. -/
def Rule.nodes : (rule : Rule) → rule.Tree → List NodeId
  | .declarations _, trees => Stmt.nodesAll trees
  | .declaration, tree => Stmt.nodesAll tree.toList
  | .statement, tree => tree.nodes
  | .methods, trees => FunctionDecl.nodesAll trees
  | .parameters _, _ => []
  | .arguments _, trees => Expr.nodesAll trees
  | .expression, tree | .operation _, tree | .operators _ _, tree | .unary, tree | .call, tree
  | .suffixes _, tree | .primary, tree => Expr.nodes tree

/-- The identities in what a rule is given. -/
def Rule.given : Rule → List NodeId
  | .operators _ left | .suffixes left => left.nodes
  | _ => []

/-- Reading by the rule draws fresh identities. -/
def Rule.Draws (sub : Readers) (rule : Rule) : Prop :=
  Grammar.Draws rule.given (sub rule) rule.nodes

section

variable {sub : Readers} (hsub : ∀ rule, Rule.Draws sub rule)

include hsub

theorem expression_draws : Draws [] (expression sub) Expr.nodes := by
  refine Draws.along (hsub (.operation _)) fun target => ?_
  refine Draws.after (Advances.faultHere _) fun invalid => ?_
  refine Draws.after (Advances.accepts _) fun assigned => Draws.ite ?_ ?_
  · refine Draws.along (hsub .expression) fun value => ?_
    cases target with
    | var id name =>
        refine Draws.bind Draws.freshId fun fresh => Draws.pure _ ?_
        exact (List.suffix_append [id] _).sublist.subperm
    | get id object name =>
        refine Draws.bind Draws.freshId fun fresh => Draws.pure _ ?_
        simp only [Rule.nodes, Expr.nodes, List.nil_append, List.append_assoc]
        exact (List.subperm_append_left object.nodes).mpr ((List.Subperm.refl _).cons_right id)
    | _ =>
        refine Draws.after (Advances.note _) fun _ => Draws.pure _ ?_
        exact (List.sublist_append_left _ _).subperm
  · exact Draws.pure _ (List.Subperm.refl _)

theorem operators_draws (level : Nat) (left : Expr) :
    Draws left.nodes (operators sub level left) Expr.nodes := by
  refine Draws.after Advances.peek fun operator => ?_
  cases infixLevel operator.category with
  | none => exact Draws.pure _ (List.Subperm.refl _)
  | some tightness =>
      refine Draws.ite (Draws.pure _ (List.Subperm.refl _)) ?_
      refine Draws.after Advances.skip fun _ => ?_
      refine Draws.along (hsub (.operation _)) fun right => ?_
      refine Draws.bind Draws.freshId fun id => ?_
      split
      · exact hsub (.operators level (.logical id left operator right))
      · exact hsub (.operators level (.binary id left operator right))

theorem unary_draws : Draws [] (unary sub) Expr.nodes := by
  refine Draws.after Advances.peek fun operator => Draws.after (Advances.sees _) fun bang =>
    Draws.after (Advances.sees _) fun minus => Draws.ite ?_ (hsub .call)
  refine Draws.after Advances.skip fun _ => Draws.bind (hsub .unary) fun operand => ?_
  exact Draws.bind Draws.freshId fun id => Draws.pure _ (List.Subperm.refl _)

theorem arguments_draws (count : Nat) : Draws [] (arguments sub count) Expr.nodesAll := by
  refine Draws.after (Advances.checkLimit _ _) fun _ => Draws.bind (hsub .expression) fun first => ?_
  refine Draws.after (Advances.accepts _) fun more => Draws.ite ?_ ?_
  · exact Draws.along (hsub (.arguments _)) fun rest => Draws.pure _ (List.Subperm.refl _)
  · refine Draws.pure _ ?_
    rw [Expr.nodesAll, Expr.nodesAll, List.append_nil]
    exact List.Subperm.refl _

theorem argumentList_draws : Draws [] (argumentList sub) Expr.nodesAll :=
  Draws.after (Advances.sees _) fun _ =>
    Draws.ite (Draws.pure _ (List.Subperm.refl _)) (hsub (.arguments 0))

theorem suffixes_draws (left : Expr) : Draws left.nodes (suffixes sub left) Expr.nodes := by
  refine Draws.after (Advances.accepts _) fun called => Draws.ite ?_ ?_
  · refine Draws.along (argumentList_draws hsub) fun arguments => ?_
    refine Draws.after (Advances.expect _ _) fun paren => Draws.bind Draws.freshId fun id => ?_
    exact hsub (.suffixes (.call id left paren arguments))
  · refine Draws.after (Advances.accepts _) fun dotted => Draws.ite ?_ ?_
    · refine Draws.after (Advances.expect _ _) fun name => Draws.bind Draws.freshId fun id => ?_
      exact hsub (.suffixes (.get id left name))
    · exact Draws.pure _ (List.Subperm.refl _)

theorem primary_draws : Draws [] (primary sub) Expr.nodes := by
  have hleaf : ∀ tree : NodeId → Expr, (∀ id, (tree id).nodes = [id]) →
      Draws [] (do return tree (← freshId)) Expr.nodes := by
    intro tree htree
    refine Draws.bind Draws.freshId fun id => Draws.pure _ ?_
    rw [htree]
    exact List.Subperm.refl _
  refine Draws.after Advances.peek fun token => ?_
  cases literal? token.kind with
  | some value => exact Draws.after Advances.skip fun _ => hleaf _ fun _ => rfl
  | none =>
      refine Draws.after (Advances.accepts _) fun _ => Draws.ite ?_ ?_
      · exact Draws.after (Advances.expect _ _) fun _ => Draws.after (Advances.expect _ _) fun _ =>
          hleaf _ fun _ => rfl
      refine Draws.after (Advances.accepts _) fun _ => Draws.ite (hleaf _ fun _ => rfl) ?_
      refine Draws.after (Advances.accepts _) fun _ => Draws.ite (hleaf _ fun _ => rfl) ?_
      refine Draws.after (Advances.accepts _) fun _ => Draws.ite ?_ (Draws.giveUp _)
      refine Draws.bind (hsub .expression) fun inner => Draws.after (Advances.expect _ _) fun _ => ?_
      exact Draws.bind Draws.freshId fun id => Draws.pure _ (List.Subperm.refl _)

theorem block_draws : Draws [] (block sub) Stmt.nodesAll :=
  Draws.bind (hsub (.declarations true)) fun _ => Draws.after (Advances.expect _ _) fun _ =>
    Draws.pure _ (List.Subperm.refl _)

omit hsub in
theorem superclassClause_draws : Draws [] superclassClause Expr.nodesOpt := by
  refine Draws.after (Advances.accepts _) fun _ => Draws.ite ?_ (Draws.pure _ (List.Subperm.refl _))
  refine Draws.after (Advances.expect _ _) fun _ => Draws.bind Draws.freshId fun id => ?_
  exact Draws.pure _ (List.Subperm.refl _)

theorem initializerClause_draws : Draws [] (initializerClause sub) Expr.nodesOpt := by
  refine Draws.after (Advances.accepts _) fun _ => Draws.ite ?_ (Draws.pure _ (List.Subperm.refl _))
  exact Draws.bind (hsub .expression) fun value => Draws.pure _ (List.Subperm.refl _)

theorem varDeclaration_draws : Draws [] (varDeclaration sub) Stmt.nodes :=
  Draws.after (Advances.expect _ _) fun _ => Draws.bind (initializerClause_draws hsub) fun _ =>
    Draws.after (Advances.expect _ _) fun _ => Draws.pure _ (List.Subperm.refl _)

theorem expressionStatement_draws : Draws [] (expressionStatement sub) Stmt.nodes :=
  Draws.bind (hsub .expression) fun _ => Draws.after (Advances.expect _ _) fun _ =>
    Draws.pure _ (List.Subperm.refl _)

theorem expressionUnless_draws (symbol : Symbol) :
    Draws [] (expressionUnless sub symbol) Expr.nodesOpt := by
  refine Draws.after (Advances.sees _) fun _ => Draws.ite (Draws.pure _ (List.Subperm.refl _)) ?_
  exact Draws.bind (hsub .expression) fun value => Draws.pure _ (List.Subperm.refl _)

theorem forInitializer_draws :
    Draws [] (forInitializer sub) fun tree => Stmt.nodesAll tree.toList := by
  have hsome : ∀ parser : Parser Stmt, Draws [] parser Stmt.nodes →
      Draws [] (some <$> parser) fun tree => Stmt.nodesAll tree.toList := by
    intro parser h
    refine Draws.map some ?_
    simpa [Stmt.nodesAll] using h
  refine Draws.after (Advances.accepts _) fun _ => Draws.ite (Draws.pure _ (List.Subperm.refl _)) ?_
  exact Draws.after (Advances.accepts _) fun _ => Draws.ite
    (hsome _ (varDeclaration_draws hsub)) (hsome _ (expressionStatement_draws hsub))

omit hsub in
theorem orTrue_draws (old : List NodeId) (condition : Option Expr) :
    Draws (old ++ Expr.nodesOpt condition) (orTrue condition) fun tree => old ++ tree.nodes := by
  cases condition with
  | none =>
      refine Draws.bind Draws.freshId fun id => Draws.pure _ ?_
      simp [Expr.nodesOpt, Expr.nodes, List.Subperm.refl]
  | some condition => exact Draws.pure _ (List.Subperm.refl _)

/-- The increment of a `for` loop comes before its body in the source and after it in the tree. -/
theorem forStatement_draws : Draws [] (forStatement sub) Stmt.nodes := by
  refine Draws.after (Advances.expect _ _) fun _ => ?_
  refine Draws.bind (forInitializer_draws hsub) fun initializer => ?_
  refine Draws.along (expressionUnless_draws hsub _) fun condition => ?_
  refine Draws.after (Advances.expect _ _) fun _ => ?_
  refine Draws.along (expressionUnless_draws hsub _) fun increment => ?_
  refine Draws.after (Advances.expect _ _) fun _ => ?_
  refine Draws.along (hsub .statement) fun statement => ?_
  let first := Stmt.nodesAll initializer.toList
  let inside := statement.nodes ++ Expr.nodesOpt increment
  -- the condition goes last: if it was left out, its identity is drawn only now
  have htest : Draws (first ++ Expr.nodesOpt condition ++ Expr.nodesOpt increment ++ statement.nodes)
      (orTrue condition) fun test => first ++ inside ++ test.nodes := by
    refine (orTrue_draws (first ++ inside) condition).of_subperm (List.Perm.subperm ?_)
    grind
  refine htest.bind fun test => ?_
  have hperm : (first ++ (test.nodes ++ inside)).Subperm (first ++ inside ++ test.nodes) := by
    rw [List.append_assoc]
    exact (List.perm_append_comm.append_left first).subperm
  cases initializer <;> cases increment <;>
    exact Draws.pure _ (by simpa [first, inside, Stmt.nodes, Stmt.nodesAll, Expr.nodesOpt] using hperm)

theorem ifStatement_draws : Draws [] (ifStatement sub) Stmt.nodes := by
  refine Draws.after (Advances.expect _ _) fun _ => Draws.bind (hsub .expression) fun condition => ?_
  refine Draws.after (Advances.expect _ _) fun _ => Draws.along (hsub .statement) fun thenBranch => ?_
  refine Draws.after (Advances.accepts _) fun _ => Draws.ite ?_ (Draws.pure _ (List.Subperm.refl _))
  exact Draws.along (hsub .statement) fun elseBranch => Draws.pure _ (List.Subperm.refl _)

theorem whileStatement_draws : Draws [] (whileStatement sub) Stmt.nodes := by
  refine Draws.after (Advances.expect _ _) fun _ => Draws.bind (hsub .expression) fun condition => ?_
  refine Draws.after (Advances.expect _ _) fun _ => Draws.along (hsub .statement) fun body => ?_
  exact Draws.pure _ (List.Subperm.refl _)

theorem statement_draws : Draws [] (statement sub) Stmt.nodes := by
  refine Draws.after Advances.peek fun keyword => ?_
  refine Draws.after (Advances.accepts _) fun _ => Draws.ite (forStatement_draws hsub) ?_
  refine Draws.after (Advances.accepts _) fun _ => Draws.ite (ifStatement_draws hsub) ?_
  refine Draws.after (Advances.accepts _) fun _ => Draws.ite ?_ ?_
  · exact Draws.bind (hsub .expression) fun _ => Draws.after (Advances.expect _ _) fun _ =>
      Draws.pure _ (List.Subperm.refl _)
  refine Draws.after (Advances.accepts _) fun _ => Draws.ite ?_ ?_
  · exact Draws.bind (expressionUnless_draws hsub _) fun _ =>
      Draws.after (Advances.expect _ _) fun _ => Draws.pure _ (List.Subperm.refl _)
  refine Draws.after (Advances.accepts _) fun _ => Draws.ite (whileStatement_draws hsub) ?_
  refine Draws.after (Advances.accepts _) fun _ => Draws.ite ?_ (expressionStatement_draws hsub)
  exact Draws.bind (block_draws hsub) fun _ => Draws.pure _ (List.Subperm.refl _)

variable (hadvance : ∀ rule, Advances (sub rule))

include hadvance

theorem function_draws (form : FunctionForm) :
    Draws [] (function sub form) FunctionDecl.nodes :=
  Draws.after (Advances.expect _ _) fun _ => Draws.after (Advances.expect _ _) fun _ =>
    Draws.after (Advances.congruence.parameterList sub hadvance) fun _ =>
      Draws.after (Advances.expect _ _) fun _ => Draws.after (Advances.expect _ _) fun _ =>
        Draws.bind (block_draws hsub) fun _ => Draws.pure _ (List.Subperm.refl _)

theorem methods_draws : Draws [] (methods sub) FunctionDecl.nodesAll := by
  refine Draws.after (Advances.sees _) fun _ => Draws.after Advances.atEnd fun _ =>
    Draws.ite (Draws.pure _ (List.Subperm.refl _)) ?_
  exact Draws.bind (function_draws hsub hadvance .method) fun _ =>
    Draws.along (hsub .methods) fun _ => Draws.pure _ (List.Subperm.refl _)

omit hadvance in
theorem classDeclaration_draws : Draws [] (classDeclaration sub) Stmt.nodes :=
  Draws.after (Advances.expect _ _) fun _ => Draws.bind superclassClause_draws fun _ =>
    Draws.after (Advances.expect _ _) fun _ => Draws.along (hsub .methods) fun _ =>
      Draws.after (Advances.expect _ _) fun _ => Draws.pure _ (List.Subperm.refl _)

theorem plainDeclaration_draws : Draws [] (plainDeclaration sub) Stmt.nodes := by
  refine Draws.after (Advances.accepts _) fun _ =>
    Draws.ite (classDeclaration_draws hsub) ?_
  refine Draws.after (Advances.accepts _) fun _ => Draws.ite ?_ ?_
  · exact Draws.bind (function_draws hsub hadvance .function) fun _ =>
      Draws.pure _ (List.Subperm.refl _)
  · exact Draws.after (Advances.accepts _) fun _ =>
      Draws.ite (varDeclaration_draws hsub) (hsub .statement)

theorem declaration_draws :
    Draws [] (declaration sub) fun tree => Stmt.nodesAll tree.toList := by
  have hplain : Draws [] (some <$> plainDeclaration sub) fun tree => Stmt.nodesAll tree.toList := by
    refine Draws.map some ?_
    simpa [Stmt.nodesAll] using plainDeclaration_draws hsub hadvance
  intro setting before tree after low hok hold
  have hle := ((declaration_advances hadvance).of_ok hok).nextId
  rw [declaration, result_tryCatch] at hok
  cases h : result (some <$> plainDeclaration sub) setting before with
  | ok statement middle =>
      rw [h] at hok
      cases hok
      exact hplain setting before _ _ low h hold
  | error halt middle =>
      rw [h] at hok
      cases halt with
      | outOfFuel => cases hok
      | fault error =>
          obtain ⟨_, _, -, hok⟩ := bind_eq_ok.mp hok
          obtain ⟨_, _, -, hok⟩ := bind_eq_ok.mp hok
          cases hok
          exact hold.widen hle

omit hadvance in
theorem declarations_draws (inBlock : Bool) :
    Draws [] (declarations sub inBlock) Stmt.nodesAll := by
  refine Draws.after (Advances.sees _) fun _ => Draws.after Advances.atEnd fun _ =>
    Draws.ite (Draws.pure _ (List.Subperm.refl _)) ?_
  refine Draws.bind (hsub .declaration) fun first =>
    Draws.along (hsub (.declarations _)) fun rest => Draws.pure _ ?_
  rw [Stmt.nodesAll_append]
  exact List.Subperm.refl _

end

/-- Reading by a rule draws fresh identities if reading by the rules that it refers to does. -/
theorem Rule.step_draws {sub : Readers} (hsub : ∀ rule, Rule.Draws sub rule)
    (hadvance : ∀ rule, Advances (sub rule)) (rule : Rule) :
    Rule.Draws (fun rule => rule.step sub) rule := by
  cases rule with
  | declarations inBlock => exact declarations_draws hsub inBlock
  | declaration => exact declaration_draws hsub hadvance
  | statement => exact statement_draws hsub
  | methods => exact methods_draws hsub hadvance
  | parameters count =>
      exact Draws.keep (Advances.congruence.parameters sub hadvance (.checkLimit _ _))
  | expression => exact expression_draws hsub
  | operation level =>
      exact Draws.bind (hsub .unary) fun left => hsub (.operators level left)
  | operators level left => exact operators_draws hsub level left
  | unary => exact unary_draws hsub
  | call => exact Draws.bind (hsub .primary) fun left => hsub (.suffixes left)
  | suffixes left => exact suffixes_draws hsub left
  | arguments count => exact arguments_draws hsub count
  | primary => exact primary_draws hsub

/-- However many references to rules are allowed, reading draws fresh identities. -/
theorem Rule.run_draws (fuel : Nat) (rule : Rule) : Rule.Draws (Rule.run fuel) rule := by
  induction fuel generalizing rule with
  | zero =>
      intro setting before tree after low hok
      cases hok
  | succ fuel ih => exact Rule.step_draws ih (Rule.run_advances fuel) rule

/-- From any cursor, the identities in a program are pairwise different, and all were handed out
while it was read. -/
theorem readProgram_fresh (setting : Setting) (start : State) :
    Fresh (Stmt.nodesAll (readProgram setting start).statements) start.nextId
      (readProgram setting start).nextId := by
  have hadvance := Rule.run_advances (fuelFor start.rest.length) (.declarations false) setting start
  have hdraws := Rule.run_draws (fuelFor start.rest.length) (.declarations false) setting start
  simp only [result] at hadvance hdraws
  rw [readProgram]
  cases h : Rule.run (fuelFor start.rest.length) (.declarations false) setting start with
  | ok statements after => exact hdraws _ _ _ h (Fresh.nil (Nat.le_refl _))
  | error halt after =>
      rw [h] at hadvance
      exact Fresh.nil hadvance.nextId

/-- So are those in a single expression. -/
theorem readExpression_fresh (setting : Setting) (start : State) :
    Fresh (Expr.nodesOpt (readExpression setting start).1.toOption) start.nextId
      (readExpression setting start).2.nextId := by
  have hadvance := Rule.run_advances (fuelFor start.rest.length) .expression setting start
  have hdraws := Rule.run_draws (fuelFor start.rest.length) .expression setting start
  simp only [result] at hadvance hdraws
  rw [readExpression]
  cases h : Rule.run (fuelFor start.rest.length) .expression setting start with
  | ok expression after => exact hdraws _ _ _ h (Fresh.nil (Nat.le_refl _))
  | error halt after =>
      rw [h] at hadvance
      cases halt <;> exact Fresh.nil hadvance.nextId

/-- The identities in a program are pairwise different, and all were handed out by its parse. -/
theorem parse_fresh (tokens : List Token) (nextId : NodeId) :
    Fresh (Stmt.nodesAll (parse tokens nextId).statements) nextId (parse tokens nextId).nextId :=
  readProgram_fresh (.standard tokens) (.start tokens nextId)

end Lox.Grammar
