import Lox.Proofs.Grammar.Progress

/-!
# The fuel is always enough

A rule refers to another one at the same token only in a fixed order, which `Rule.rank` counts, and
otherwise after taking a token. So sixteen references for each token suffice, more of them change
nothing, and `Rule.read` reads by a rule without a bound: it is the fixpoint of `Rule.step`.
-/

namespace Lox.Grammar

variable {α β : Type} {setting : Setting} {before after : State}

/-! ## Agreement of two parsers -/

/-- Two parsers do the same from a state, and do not run out of fuel there. -/
structure Agree (first second : Parser α) (setting : Setting) (before : State) : Prop where
  eq : result first setting before = result second setting before
  fueled : ∀ after, result first setting before ≠ .error .outOfFuel after

namespace Agree

theorem pure (a : α) : Agree (Pure.pure a) (Pure.pure a) setting before :=
  ⟨rfl, fun _ h => by cases h⟩

theorem giveUp (fault : SyntaxFault) :
    Agree (Grammar.giveUp fault : Parser α) (Grammar.giveUp fault) setting before :=
  ⟨rfl, fun _ h => by cases h⟩

theorem bind {first first' : Parser α} {second second' : α → Parser β}
    (hfirst : Agree first first' setting before)
    (hsecond : ∀ a middle, result first setting before = .ok a middle →
      Agree (second a) (second' a) setting middle) :
    Agree (first >>= second) (first' >>= second') setting before := by
  have heq := hfirst.eq
  cases h : result first setting before with
  | ok a middle =>
      rw [h] at heq
      obtain ⟨hagree, hfueled⟩ := hsecond a middle h
      refine ⟨by rw [bind_of_ok h, bind_of_ok heq.symm, hagree], fun after => ?_⟩
      rw [bind_of_ok h]
      exact hfueled after
  | error halt middle =>
      rw [h] at heq
      refine ⟨by rw [bind_of_error h, bind_of_error heq.symm], fun after hafter => ?_⟩
      rw [bind_of_error h] at hafter
      cases hafter
      exact hfirst.fueled _ h

theorem bind_ok {first : Parser α} {second second' : α → Parser β} {a : α} {middle : State}
    (hfirst : result first setting before = .ok a middle)
    (hsecond : Agree (second a) (second' a) setting middle) :
    Agree (first >>= second) (first >>= second') setting before := by
  refine bind ⟨rfl, fun after h => by rw [hfirst] at h; cases h⟩ fun b state h => ?_
  rw [hfirst] at h
  cases h
  exact hsecond

theorem map {first second : Parser α} (f : α → β) (h : Agree first second setting before) :
    Agree (f <$> first) (f <$> second) setting before := by
  rw [map_eq_bind, map_eq_bind]
  exact h.bind fun a middle _ => pure (f a)

theorem ite {condition : Prop} [Decidable condition] {yes yes' no no' : Parser α}
    (hyes : condition → Agree yes yes' setting before)
    (hno : ¬condition → Agree no no' setting before) :
    Agree (if condition then yes else no) (if condition then yes' else no') setting before := by
  split
  · exact hyes ‹_›
  · exact hno ‹_›

theorem accepts_ite {category : Category} {yes yes' no no' : Parser α}
    (hyes : before.next? = some category → Agree yes yes' setting before.skipped)
    (hno : Agree no no' setting before) :
    Agree (accepts category >>= fun accepted => if accepted = true then yes else no)
      (accepts category >>= fun accepted => if accepted = true then yes' else no')
      setting before := by
  by_cases h : before.next? = some category
  · exact bind_ok (result_accepts_of_next h) (ite (fun _ => hyes h) fun hfalse => absurd rfl hfalse)
  · exact bind_ok (result_accepts_of_not h) (ite (fun htrue => by cases htrue) fun _ => hno)

theorem sees_ite {category : Category} {yes yes' no no' : Parser α}
    (hyes : Agree yes yes' setting before) (hno : Agree no no' setting before) :
    Agree (sees category >>= fun seen => if seen = true then yes else no)
      (sees category >>= fun seen => if seen = true then yes' else no') setting before :=
  bind_ok (result_sees category) (ite (fun _ => hyes) (fun _ => hno))

theorem expect_bind {category : Category} {fault : SyntaxFault} {next next' : Token → Parser α}
    (hnext : ∀ token, before.next? = some category →
      Agree (next token) (next' token) setting before.skipped) :
    Agree (expect category fault >>= next) (expect category fault >>= next') setting before := by
  by_cases h : before.next? = some category
  · exact bind_ok (result_expect_of_next h fault) (hnext _ h)
  · have hexpect : result (expect category fault) setting before = _ := result_expect_of_not h fault
    refine ⟨by rw [bind_of_error hexpect, bind_of_error hexpect], fun after hafter => ?_⟩
    rw [bind_of_error hexpect] at hafter
    cases hafter

end Agree

/-! ## How many references suffice -/

/-- How many rules can follow at the same token, at most. -/
def Rule.rank : Rule → Nat
  | declarations _ => 7
  | declaration => 6
  | statement | arguments _ => 5
  | expression => 4
  | operation _ => 3
  | unary => 2
  | call => 1
  | methods | parameters _ | operators _ _ | suffixes _ | primary => 0

/-- References to rules that suffice for reading by a rule, with so many tokens to go. -/
def Rule.need (rule : Rule) (tokens : Nat) : Nat :=
  16 * tokens + rule.rank + 1

theorem Rule.rank_le (rule : Rule) : rule.rank ≤ 7 := by
  cases rule <;> simp [rank]

/-- After taking a token, any rule may follow. -/
theorem Rule.need_of_lt {rule next : Rule} {tokens less : Nat} (h : less < tokens) :
    next.need less < rule.need tokens := by
  have := next.rank_le
  simp only [need]
  omega

/-- Without taking a token, a rule of lower rank may follow. -/
theorem Rule.need_of_rank {rule next : Rule} {tokens less : Nat} (h : less ≤ tokens)
    (hrank : next.rank < rule.rank) : next.need less < rule.need tokens := by
  simp only [need]
  omega

/-! ## Rules whose references agree -/

/-- Two readers that agree, for every rule, wherever fewer tokens are left. -/
def AgreeBelow (sub other : Readers) (setting : Setting) (tokens : Nat) : Prop :=
  ∀ rule before, before.rest.length < tokens → Agree (sub rule) (other rule) setting before

section

variable {sub other : Readers} {tokens : Nat}
  (hsub : ∀ rule, Advances (sub rule)) (hbelow : AgreeBelow sub other setting tokens)

include hsub hbelow

/-! ### Expressions -/

theorem expression_agrees (hle : before.rest.length ≤ tokens)
    (hoperation : Agree (sub (.operation loosest)) (other (.operation loosest)) setting before) :
    Agree (expression sub) (expression other) setting before := by
  refine hoperation.bind fun target middle hmiddle => ?_
  have hmid := ((hsub _).of_ok hmiddle).length_le
  refine Agree.bind_ok (result_faultHere _) (Agree.accepts_ite (fun hnext => ?_) (Agree.pure _))
  have hlt := State.length_skipped_lt hnext
  refine (hbelow .expression _ (by omega)).bind fun value state hvalue => ?_
  cases target with
  | var id name => exact Agree.bind_ok result_freshId (Agree.pure _)
  | get id object name => exact Agree.bind_ok result_freshId (Agree.pure _)
  | _ => exact Agree.bind_ok (result_note _) (Agree.pure _)

theorem operators_agrees (hending : setting.ending.category = .eof) (level : Nat) (left : Expr)
    (hle : before.rest.length ≤ tokens) :
    Agree (operators sub level left) (operators other level left) setting before := by
  refine Agree.bind_ok result_peek ?_
  cases hlevel : infixLevel (before.rest.head?.getD setting.ending).category with
  | none => exact Agree.pure _
  | some tightness =>
      refine Agree.ite (fun _ => Agree.pure _) fun _ => Agree.bind_ok result_skip ?_
      have hlt : before.skipped.rest.length < before.rest.length := by
        cases hrest : before.rest with
        | nil => simp [hrest, hending, infixLevel] at hlevel
        | cons token rest => simp [hrest]
      refine (hbelow (.operation _) _ (by omega)).bind fun right state hright => ?_
      have hstate := ((hsub _).of_ok hright).length_le
      refine Agree.bind_ok result_freshId ?_
      split
      · exact hbelow _ _ (by simp only [State.renewed_rest]; omega)
      · exact hbelow _ _ (by simp only [State.renewed_rest]; omega)

omit hsub in
theorem unary_agrees (hle : before.rest.length ≤ tokens)
    (hcall : Agree (sub .call) (other .call) setting before) :
    Agree (unary sub) (unary other) setting before := by
  refine Agree.bind_ok result_peek (Agree.bind_ok (result_sees _) (Agree.bind_ok (result_sees _)
    (Agree.ite (fun hsign => ?_) fun _ => hcall)))
  have hlt : before.skipped.rest.length < before.rest.length := by
    rcases (by simpa using hsign) with h | h
    · exact State.length_skipped_lt h
    · exact State.length_skipped_lt h
  refine Agree.bind_ok result_skip ((hbelow .unary _ (by omega)).bind fun operand state _ => ?_)
  exact Agree.bind_ok result_freshId (Agree.pure _)

theorem arguments_agrees (count : Nat) (hle : before.rest.length ≤ tokens)
    (hexpression : ∀ state, state.rest.length ≤ before.rest.length →
      Agree (sub .expression) (other .expression) setting state) :
    Agree (arguments sub count) (arguments other count) setting before := by
  refine Agree.bind_ok (result_checkLimit _ _) ?_
  refine (hexpression _ (by simp)).bind fun argument middle hmiddle => ?_
  have hmid := ((hsub _).of_ok hmiddle).length_le
  refine Agree.accepts_ite (fun hnext => ?_) (Agree.pure _)
  have hlt := State.length_skipped_lt hnext
  simp only [State.checked_rest] at hmid
  exact (hbelow (.arguments _) _ (by omega)).bind fun rest state _ => Agree.pure _

omit hsub in
theorem argumentList_agrees (hlt : before.rest.length < tokens) :
    Agree (argumentList sub) (argumentList other) setting before :=
  Agree.sees_ite (Agree.pure _) (hbelow _ _ hlt)

theorem suffixes_agrees (left : Expr) (hle : before.rest.length ≤ tokens) :
    Agree (suffixes sub left) (suffixes other left) setting before := by
  refine Agree.accepts_ite (fun hcalled => ?_) (Agree.accepts_ite (fun hdotted => ?_)
    (Agree.pure _))
  · have hlt := State.length_skipped_lt hcalled
    refine (argumentList_agrees hbelow (by omega)).bind fun arguments middle hmiddle => ?_
    have hmid := ((Advances.congruence.argumentList sub hsub).of_ok hmiddle).length_le
    refine Agree.expect_bind fun paren hparen => Agree.bind_ok result_freshId (hbelow _ _ ?_)
    have hparen := State.length_skipped_lt hparen
    simp only [State.renewed_rest]
    omega
  · have hlt := State.length_skipped_lt hdotted
    refine Agree.expect_bind fun name hname => Agree.bind_ok result_freshId (hbelow _ _ ?_)
    have hname := State.length_skipped_lt hname
    simp only [State.renewed_rest]
    omega

omit hsub in
theorem primary_agrees (hle : before.rest.length ≤ tokens) :
    Agree (primary sub) (primary other) setting before := by
  refine Agree.bind_ok result_peek ?_
  cases literal? (before.rest.head?.getD setting.ending).kind with
  | some value => exact Agree.bind_ok result_skip (Agree.bind_ok result_freshId (Agree.pure _))
  | none =>
      refine Agree.accepts_ite (fun _ => Agree.expect_bind fun _ _ => Agree.expect_bind fun _ _ =>
        Agree.bind_ok result_freshId (Agree.pure _)) ?_
      refine Agree.accepts_ite (fun _ => Agree.bind_ok result_freshId (Agree.pure _)) ?_
      refine Agree.accepts_ite (fun _ => Agree.bind_ok result_freshId (Agree.pure _)) ?_
      refine Agree.accepts_ite (fun hparen => ?_) (Agree.giveUp _)
      have hlt := State.length_skipped_lt hparen
      exact (hbelow .expression _ (by omega)).bind fun inner _ _ => Agree.expect_bind fun _ _ =>
        Agree.bind_ok result_freshId (Agree.pure _)

/-! ### Declarations -/

omit hsub in
theorem block_agrees (hlt : before.rest.length < tokens) :
    Agree (block sub) (block other) setting before :=
  (hbelow (.declarations true) _ hlt).bind fun _ _ _ => Agree.expect_bind fun _ _ => Agree.pure _

omit hsub in
theorem parameterList_agrees (hlt : before.rest.length < tokens) :
    Agree (parameterList sub) (parameterList other) setting before :=
  Agree.sees_ite (Agree.pure _) (hbelow _ _ hlt)

theorem function_agrees (form : FunctionForm) (hle : before.rest.length ≤ tokens) :
    Agree (function sub form) (function other form) setting before := by
  refine Agree.expect_bind fun name hname => Agree.expect_bind fun _ hopen => ?_
  have hname := State.length_skipped_lt hname
  have hopen := State.length_skipped_lt hopen
  refine (parameterList_agrees hbelow (by omega)).bind fun parameters middle hmiddle => ?_
  have hmid := ((Advances.congruence.parameterList sub hsub).of_ok hmiddle).length_le
  refine Agree.expect_bind fun _ hclose => Agree.expect_bind fun _ hbrace => ?_
  have hclose := State.length_skipped_lt hclose
  have hbrace := State.length_skipped_lt hbrace
  exact (block_agrees hbelow (by omega)).bind fun _ _ _ => Agree.pure _

omit hsub in
theorem parameters_agrees (count : Nat) (hle : before.rest.length ≤ tokens) :
    Agree (parameters sub count) (parameters other count) setting before := by
  refine Agree.bind_ok (result_checkLimit _ _) (Agree.expect_bind fun name hname => ?_)
  have hname := State.length_skipped_lt hname
  refine Agree.accepts_ite (fun hcomma => ?_) (Agree.pure _)
  have hcomma := State.length_skipped_lt hcomma
  simp only [State.checked_rest] at hname
  exact (hbelow (.parameters _) _ (by omega)).bind fun _ _ _ => Agree.pure _

theorem methods_agrees (hle : before.rest.length ≤ tokens) :
    Agree (methods sub) (methods other) setting before := by
  refine Agree.bind_ok (result_sees _) (Agree.bind_ok result_atEnd
    (Agree.ite (fun _ => Agree.pure _) fun _ => ?_))
  refine (function_agrees hsub hbelow .method hle).bind fun method middle hmiddle => ?_
  have hlt := function_consumes hsub .method _ _ _ _ hmiddle
  exact (hbelow .methods _ (by omega)).bind fun _ _ _ => Agree.pure _

omit hsub hbelow in
theorem superclassClause_agrees :
    Agree superclassClause superclassClause setting before :=
  Agree.accepts_ite (fun _ => Agree.expect_bind fun _ _ => Agree.bind_ok result_freshId
    (Agree.pure _)) (Agree.pure _)

omit hsub in
theorem classDeclaration_agrees (hlt : before.rest.length < tokens) :
    Agree (classDeclaration sub) (classDeclaration other) setting before := by
  refine Agree.expect_bind fun name hname => superclassClause_agrees.bind fun _ middle hmiddle => ?_
  have hname := State.length_skipped_lt hname
  have hmid := (Advances.congruence.superclassClause.of_ok hmiddle).length_le
  refine Agree.expect_bind fun _ hbrace => ?_
  have hbrace := State.length_skipped_lt hbrace
  exact (hbelow .methods _ (by omega)).bind fun _ _ _ => Agree.expect_bind fun _ _ => Agree.pure _

omit hsub in
theorem initializerClause_agrees (hlt : before.rest.length < tokens) :
    Agree (initializerClause sub) (initializerClause other) setting before := by
  refine Agree.accepts_ite (fun hnext => ?_) (Agree.pure _)
  have hnext := State.length_skipped_lt hnext
  exact (hbelow .expression _ (by omega)).bind fun _ _ _ => Agree.pure _

omit hsub in
theorem varDeclaration_agrees (hlt : before.rest.length < tokens) :
    Agree (varDeclaration sub) (varDeclaration other) setting before := by
  refine Agree.expect_bind fun name hname => ?_
  have hname := State.length_skipped_lt hname
  exact (initializerClause_agrees hbelow (by omega)).bind fun _ _ _ =>
    Agree.expect_bind fun _ _ => Agree.pure _

theorem plainDeclaration_agrees (hle : before.rest.length ≤ tokens)
    (hstatement : Agree (sub .statement) (other .statement) setting before) :
    Agree (plainDeclaration sub) (plainDeclaration other) setting before := by
  refine Agree.accepts_ite (fun hnext => ?_) (Agree.accepts_ite (fun hnext => ?_)
    (Agree.accepts_ite (fun hnext => ?_) hstatement))
  · have hnext := State.length_skipped_lt hnext
    exact classDeclaration_agrees hbelow (by omega)
  · have hnext := State.length_skipped_lt hnext
    exact (function_agrees hsub hbelow _ (by omega)).bind fun _ _ _ => Agree.pure _
  · have hnext := State.length_skipped_lt hnext
    exact varDeclaration_agrees hbelow (by omega)

theorem declaration_agrees (hle : before.rest.length ≤ tokens)
    (hstatement : Agree (sub .statement) (other .statement) setting before) :
    Agree (declaration sub) (declaration other) setting before := by
  have hplain := (plainDeclaration_agrees hsub hbelow hle hstatement).map some
  have hresult := hplain.eq
  cases h : result (some <$> plainDeclaration sub) setting before with
  | ok statement after =>
      rw [h] at hresult
      refine ⟨?_, fun state hstate => ?_⟩
      · rw [declaration, declaration, result_tryCatch, result_tryCatch, h, ← hresult]
      · rw [declaration, result_tryCatch, h] at hstate
        cases hstate
  | error halt after =>
      rw [h] at hresult
      cases halt with
      | outOfFuel => exact absurd h (hplain.fueled after)
      | fault error =>
          refine ⟨?_, fun state hstate => ?_⟩
          · rw [declaration, declaration, result_tryCatch, result_tryCatch, h, ← hresult]
          · rw [declaration, result_tryCatch, h] at hstate
            cases hstate

omit hsub in
theorem declarations_agrees (inBlock : Bool)
    (hdeclaration : Agree (sub .declaration) (other .declaration) setting before)
    (htakes : ∀ statement middle, before.rest ≠ [] →
      result (sub .declaration) setting before = .ok statement middle →
        middle.rest.length < tokens) :
    Agree (declarations sub inBlock) (declarations other inBlock) setting before := by
  refine Agree.bind_ok (result_sees _) (Agree.bind_ok result_atEnd
    (Agree.ite (fun _ => Agree.pure _) fun hmore => ?_))
  have hrest : before.rest ≠ [] := by
    intro hnil
    simp [hnil] at hmore
  refine hdeclaration.bind fun first middle hmiddle => ?_
  exact (hbelow (.declarations _) _ (htakes _ _ hrest hmiddle)).bind fun _ _ _ => Agree.pure _

/-! ### Statements -/

omit hsub hbelow in
theorem expressionStatement_agrees
    (hexpression : Agree (sub .expression) (other .expression) setting before) :
    Agree (expressionStatement sub) (expressionStatement other) setting before :=
  hexpression.bind fun _ _ _ => Agree.expect_bind fun _ _ => Agree.pure _

omit hsub in
theorem expressionUnless_agrees (symbol : Symbol) (hlt : before.rest.length < tokens) :
    Agree (expressionUnless sub symbol) (expressionUnless other symbol) setting before :=
  Agree.sees_ite (Agree.pure _) ((hbelow .expression _ hlt).bind fun _ _ _ => Agree.pure _)

omit hsub in
theorem forInitializer_agrees (hlt : before.rest.length < tokens) :
    Agree (forInitializer sub) (forInitializer other) setting before := by
  refine Agree.accepts_ite (fun _ => Agree.pure _) (Agree.accepts_ite (fun hnext => ?_) ?_)
  · have hnext := State.length_skipped_lt hnext
    exact (varDeclaration_agrees hbelow (by omega)).map some
  · exact (expressionStatement_agrees (hbelow _ _ hlt)).map some

omit hsub hbelow in
theorem orTrue_agrees (condition : Option Expr) :
    Agree (orTrue condition) (orTrue condition) setting before := by
  cases condition with
  | none => exact Agree.bind_ok result_freshId (Agree.pure _)
  | some condition => exact Agree.pure _

theorem forStatement_agrees (hlt : before.rest.length < tokens) :
    Agree (forStatement sub) (forStatement other) setting before := by
  refine Agree.expect_bind fun _ hopen => ?_
  have hopen := State.length_skipped_lt hopen
  refine (forInitializer_agrees hbelow (by omega)).bind fun initializer first hfirst => ?_
  have hfirst := ((Advances.congruence.forInitializer sub hsub).of_ok hfirst).length_le
  refine (expressionUnless_agrees hbelow _ (by omega)).bind fun condition second hsecond => ?_
  have hsecond := ((Advances.congruence.expressionUnless sub hsub _).of_ok hsecond).length_le
  refine Agree.expect_bind fun _ hsemicolon => ?_
  have hsemicolon := State.length_skipped_lt hsemicolon
  refine (expressionUnless_agrees hbelow _ (by omega)).bind fun increment third hthird => ?_
  have hthird := ((Advances.congruence.expressionUnless sub hsub _).of_ok hthird).length_le
  refine Agree.expect_bind fun _ hclose => ?_
  have hclose := State.length_skipped_lt hclose
  refine (hbelow .statement _ (by omega)).bind fun statement fourth _ => ?_
  refine (orTrue_agrees condition).bind fun condition fifth _ => ?_
  cases initializer with
  | none => exact Agree.pure _
  | some initializer => exact Agree.pure _

theorem ifStatement_agrees (hlt : before.rest.length < tokens) :
    Agree (ifStatement sub) (ifStatement other) setting before := by
  refine Agree.expect_bind fun _ hopen => ?_
  have hopen := State.length_skipped_lt hopen
  refine (hbelow .expression _ (by omega)).bind fun condition first hfirst => ?_
  have hfirst := ((hsub _).of_ok hfirst).length_le
  refine Agree.expect_bind fun _ hclose => ?_
  have hclose := State.length_skipped_lt hclose
  refine (hbelow .statement _ (by omega)).bind fun thenBranch second hsecond => ?_
  have hsecond := ((hsub _).of_ok hsecond).length_le
  refine Agree.accepts_ite (fun helse => ?_) (Agree.pure _)
  have helse := State.length_skipped_lt helse
  exact (hbelow .statement _ (by omega)).bind fun _ _ _ => Agree.pure _

omit hsub in
theorem printStatement_agrees (hlt : before.rest.length < tokens) :
    Agree (printStatement sub) (printStatement other) setting before :=
  (hbelow .expression _ hlt).bind fun _ _ _ => Agree.expect_bind fun _ _ => Agree.pure _

omit hsub in
theorem returnStatement_agrees (keyword : Token) (hlt : before.rest.length < tokens) :
    Agree (returnStatement sub keyword) (returnStatement other keyword) setting before :=
  (expressionUnless_agrees hbelow _ hlt).bind fun _ _ _ =>
    Agree.expect_bind fun _ _ => Agree.pure _

theorem whileStatement_agrees (hlt : before.rest.length < tokens) :
    Agree (whileStatement sub) (whileStatement other) setting before := by
  refine Agree.expect_bind fun _ hopen => ?_
  have hopen := State.length_skipped_lt hopen
  refine (hbelow .expression _ (by omega)).bind fun condition first hfirst => ?_
  have hfirst := ((hsub _).of_ok hfirst).length_le
  refine Agree.expect_bind fun _ hclose => ?_
  have hclose := State.length_skipped_lt hclose
  exact (hbelow .statement _ (by omega)).bind fun _ _ _ => Agree.pure _

theorem statement_agrees (hle : before.rest.length ≤ tokens)
    (hexpression : Agree (sub .expression) (other .expression) setting before) :
    Agree (statement sub) (statement other) setting before := by
  have hlt : ∀ {category}, before.next? = some category → before.skipped.rest.length < tokens :=
    fun h => Nat.lt_of_lt_of_le (State.length_skipped_lt h) hle
  refine Agree.bind_ok result_peek ?_
  refine Agree.accepts_ite (fun h => forStatement_agrees hsub hbelow (hlt h)) ?_
  refine Agree.accepts_ite (fun h => ifStatement_agrees hsub hbelow (hlt h)) ?_
  refine Agree.accepts_ite (fun h => printStatement_agrees hbelow (hlt h)) ?_
  refine Agree.accepts_ite (fun h => returnStatement_agrees hbelow _ (hlt h)) ?_
  refine Agree.accepts_ite (fun h => whileStatement_agrees hsub hbelow (hlt h)) ?_
  refine Agree.accepts_ite (fun h => ?_) (expressionStatement_agrees hexpression)
  exact (block_agrees hbelow (hlt h)).bind fun _ _ _ => Agree.pure _

end

/-! ## Reading without a bound -/

namespace Rule

/-- Reading by a rule agrees for two readers that agree with one reference less. -/
theorem step_agrees {sub other : Readers} {fuel : Nat}
    (hending : setting.ending.category = .eof) (hsub : ∀ rule, Advances (sub rule))
    (htakes : ∀ {before after statement}, before.rest ≠ [] →
      result (sub .declaration) setting before = .ok statement after →
        after.rest.length < before.rest.length)
    (hagree : ∀ rule before, need rule before.rest.length ≤ fuel →
      Agree (sub rule) (other rule) setting before)
    (rule : Rule) (hneed : need rule before.rest.length ≤ fuel + 1) :
    Agree (rule.step sub) (rule.step other) setting before := by
  have hbelow : AgreeBelow sub other setting before.rest.length := fun next state hlt =>
    hagree next state (Nat.le_of_lt_succ (Nat.lt_of_lt_of_le (need_of_lt hlt) hneed))
  have hlower : ∀ (next : Rule) (state : State), state.rest.length ≤ before.rest.length →
      next.rank < rule.rank → Agree (sub next) (other next) setting state :=
    fun next state hle hrank => hagree next state
      (Nat.le_of_lt_succ (Nat.lt_of_lt_of_le (need_of_rank hle hrank) hneed))
  cases rule with
  | declarations inBlock =>
      exact declarations_agrees hbelow inBlock (hlower _ _ (Nat.le_refl _) (by simp [rank]))
        fun _ _ hrest h => htakes hrest h
  | declaration =>
      exact declaration_agrees hsub hbelow (Nat.le_refl _)
        (hlower _ _ (Nat.le_refl _) (by simp [rank]))
  | statement =>
      exact statement_agrees hsub hbelow (Nat.le_refl _)
        (hlower _ _ (Nat.le_refl _) (by simp [rank]))
  | methods => exact methods_agrees hsub hbelow (Nat.le_refl _)
  | parameters count => exact parameters_agrees hbelow count (Nat.le_refl _)
  | expression =>
      exact expression_agrees hsub hbelow (Nat.le_refl _)
        (hlower _ _ (Nat.le_refl _) (by simp [rank]))
  | operation level =>
      refine (hlower .unary _ (Nat.le_refl _) (by simp [rank])).bind fun left middle h => ?_
      exact hlower _ _ ((hsub _).of_ok h).length_le (by simp [rank])
  | operators level left => exact operators_agrees hsub hbelow hending level left (Nat.le_refl _)
  | unary => exact unary_agrees hbelow (Nat.le_refl _) (hlower _ _ (Nat.le_refl _) (by simp [rank]))
  | call =>
      refine (hlower .primary _ (Nat.le_refl _) (by simp [rank])).bind fun left middle h => ?_
      exact hlower _ _ ((hsub _).of_ok h).length_le (by simp [rank])
  | suffixes left => exact suffixes_agrees hsub hbelow left (Nat.le_refl _)
  | arguments count =>
      exact arguments_agrees hsub hbelow count (Nat.le_refl _)
        fun state hle => hlower _ _ hle (by simp [rank])
  | primary => exact primary_agrees hbelow (Nat.le_refl _)

/-- From the number of references that suffices on, more of them change nothing. -/
theorem run_agrees (hending : setting.ending.category = .eof) {fuel more : Nat} (hle : fuel ≤ more)
    (rule : Rule) (hneed : need rule before.rest.length ≤ fuel) :
    Agree (run fuel rule) (run more rule) setting before := by
  induction fuel generalizing more rule before with
  | zero => exact absurd hneed (by simp [need])
  | succ fuel ih =>
      obtain ⟨more, rfl⟩ : ∃ m, more = m + 1 := ⟨more - 1, by omega⟩
      exact step_agrees hending (run_advances fuel) run_declaration_takes
        (fun next state h => ih (by omega) next h) rule hneed

theorem need_le_fuelFor (rule : Rule) (tokens : Nat) : need rule tokens ≤ fuelFor tokens := by
  have := rule.rank_le
  simp only [need, fuelFor]
  omega

/-- Reads by a rule, following as many references as suffice. -/
@[irreducible] def read (rule : Rule) : Parser rule.Tree :=
  fun setting before => run (fuelFor before.rest.length) rule setting before

theorem result_read (rule : Rule) :
    result (read rule) setting before =
      result (run (fuelFor before.rest.length) rule) setting before := by
  unfold result read
  rfl

theorem read_advances (rule : Rule) : Advances (read rule) := by
  intro setting before
  rw [result_read]
  exact run_advances _ rule setting before

theorem run_agrees_read (hending : setting.ending.category = .eof) {fuel : Nat} (rule : Rule)
    (hneed : need rule before.rest.length ≤ fuel) :
    Agree (run fuel rule) (read rule) setting before := by
  have h := run_agrees hending (Nat.le_max_left fuel (fuelFor before.rest.length)) rule hneed
  have h' := run_agrees hending (Nat.le_max_right fuel (fuelFor before.rest.length)) rule
    (need_le_fuelFor rule before.rest.length)
  exact ⟨by rw [result_read, h.eq, h'.eq], h.fueled⟩

/-- Reading by a rule is reading by its definition, with the other rules read the same way. -/
theorem read_eq (hending : setting.ending.category = .eof) (rule : Rule) (before : State) :
    result (read rule) setting before = result (rule.step read) setting before := by
  have hfuel : fuelFor before.rest.length = (16 * before.rest.length + 15) + 1 := by
    simp [fuelFor, Nat.mul_add]
  have hneed := need_le_fuelFor rule before.rest.length
  rw [hfuel] at hneed
  rw [result_read, hfuel, run]
  exact (step_agrees hending (run_advances _) run_declaration_takes
    (fun next state h => run_agrees_read hending next h) rule hneed).eq

/-- Reading by a rule never runs out of references. -/
theorem read_fueled (hending : setting.ending.category = .eof) (rule : Rule) (before after : State) :
    result (read rule) setting before ≠ .error .outOfFuel after := by
  rw [result_read]
  exact (run_agrees hending (Nat.le_refl _) rule (need_le_fuelFor rule _)).fueled after

end Rule

end Lox.Grammar
