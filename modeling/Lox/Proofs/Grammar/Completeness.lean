import Lox.Proofs.Grammar.ExpressionReading

/-!
# What is in the grammar is read without errors

How each kind of phrase is read from the front of the tokens, one lemma for each production of the
grammar, and by induction on a derivation that every phrase is read with its tree.
-/

namespace Lox.Grammar

variable {setting : Setting} {before after : State}

/-! ## Phrases -/

/-- How a phrase at the front of the tokens is read. Phrases with a first token of their own are
read from behind it. -/
def Reads (setting : Setting) : (phrase : Phrase) → List Token → phrase.Tree → Prop
  | .declarations, tokens, trees => ∀ inBlock before rest, before.rest = tokens ++ rest →
      (rest = [] ∨ inBlock = true ∧ nextOf rest = some (.symbol .rightBrace)) →
        Gives (Rule.read (.declarations inBlock)) setting before rest (Stmt.eraseAll · = trees)
  | .declaration, tokens, tree => ∀ before rest, before.rest = tokens ++ rest →
      nextOf rest ≠ some (.keyword .else_) →
        Gives (plainDeclaration Rule.read) setting before rest (Stmt.erase · = tree)
  | .classDeclaration, tokens, tree => ∃ keyword more, tokens = keyword :: more ∧
      keyword.category = .keyword .class_ ∧ ∀ before rest, before.rest = more ++ rest →
        Gives (classDeclaration Rule.read) setting before rest (Stmt.erase · = tree)
  | .variableDeclaration, tokens, tree => ∃ keyword more, tokens = keyword :: more ∧
      keyword.category = .keyword .var_ ∧ ∀ before rest, before.rest = more ++ rest →
        Gives (varDeclaration Rule.read) setting before rest (Stmt.erase · = tree)
  | .functions, tokens, trees => ∀ before rest, before.rest = tokens ++ rest →
      nextOf rest = some (.symbol .rightBrace) →
        Gives (Rule.read .methods) setting before rest (FunctionDecl.eraseAll · = trees)
  | .function, tokens, tree => ∀ form before rest, before.rest = tokens ++ rest →
      Gives (function Rule.read form) setting before rest (FunctionDecl.erase · = tree)
  | .parameterList, tokens, names => ∀ before rest, before.rest = tokens ++ rest →
      nextOf rest = some (.symbol .rightParen) →
        Gives (parameterList Rule.read) setting before rest (· = names)
  | .parameters, tokens, names => ∀ count before rest, before.rest = tokens ++ rest →
      count + names.length ≤ 8 → nextOf rest = some (.symbol .rightParen) →
        Gives (Rule.read (.parameters count)) setting before rest (· = names)
  | .block, tokens, trees => ∃ left more, tokens = left :: more ∧
      left.category = .symbol .leftBrace ∧ ∀ before rest, before.rest = more ++ rest →
        Gives (block Rule.read) setting before rest (Stmt.eraseAll · = trees)
  | .statement dangling, tokens, tree => ∀ before rest, before.rest = tokens ++ rest →
      (dangling = true → nextOf rest ≠ some (.keyword .else_)) →
        Gives (Rule.read .statement) setting before rest (Stmt.erase · = tree)
  | .forInitializer, tokens, tree => ∀ before rest, before.rest = tokens ++ rest →
      Gives (forInitializer Rule.read) setting before rest (Option.map Stmt.erase · = tree)
  | .optionalExpression, tokens, tree => ∀ symbol before rest, before.rest = tokens ++ rest →
      symbol = .semicolon ∨ symbol = .rightParen → nextOf rest = some (.symbol symbol) →
        Gives (expressionUnless Rule.read symbol) setting before rest
          (Option.map Expr.erase · = tree)
  | .expression layer, tokens, tree => ReadsExpression setting layer tokens tree
  | .argumentList, tokens, trees => ∀ before rest, before.rest = tokens ++ rest →
      nextOf rest = some (.symbol .rightParen) →
        Gives (argumentList Rule.read) setting before rest (Expr.eraseAll · = trees)
  | .arguments, tokens, trees => ∀ count before rest, before.rest = tokens ++ rest →
      count + trees.length ≤ 8 → nextOf rest = some (.symbol .rightParen) →
        Gives (Rule.read (.arguments count)) setting before rest (Expr.eraseAll · = trees)

section

variable (hending : setting.ending.category = .eof) (hlimit : setting.limit = some entryLimit)
  {tokens : List Token}

/-! ### Lists of entries -/

include hending hlimit

theorem reads_lastParameter {name : Token} (hname : name.category = .identifier) :
    Reads setting .parameters [name] [name] := by
  intro count before rest hrest hcount hnext
  refine Gives.read hending (Gives.checkLimit_bind hlimit hcount ?_)
  refine Gives.expect_bind hrest hname fun first hfirst => ?_
  replace hfirst : first.rest = rest := hfirst
  refine Gives.accepts_no (by rw [hfirst, hnext]; simp) ?_
  exact Gives.pure hfirst rfl

theorem reads_moreParameters {name comma : Token} {names : List Token}
    (hname : name.category = .identifier) (hcomma : comma.category = .symbol .comma)
    (h : Reads setting .parameters tokens names) :
    Reads setting .parameters (name :: comma :: tokens) (name :: names) := by
  intro count before rest hrest hcount hnext
  rw [List.length_cons] at hcount
  refine Gives.read hending (Gives.checkLimit_bind hlimit (by omega) ?_)
  refine Gives.expect_bind hrest hname fun first hfirst => ?_
  refine Gives.accepts_yes hfirst hcomma fun second hsecond => ?_
  refine (h (count + 1) second rest hsecond (by omega) hnext).bind fun more third hmore hthird => ?_
  exact Gives.pure hthird (by rw [hmore])

theorem reads_lastArgument {tree : Expr} (h : Reads setting (.expression .assignment) tokens tree) :
    Reads setting .arguments tokens [tree] := by
  intro count before rest hrest hcount hnext
  refine Gives.read hending (Gives.checkLimit_bind hlimit hcount ?_)
  refine (h before rest hrest (.inr (.inl hnext))).bind fun argument first hargument hfirst => ?_
  refine Gives.accepts_no (by rw [hfirst, hnext]; simp) ?_
  exact Gives.pure hfirst (by simp [Expr.eraseAll, hargument])

theorem reads_moreArguments {comma : Token} {more : List Token} {tree : Expr} {trees : List Expr}
    (hfirst : Reads setting (.expression .assignment) tokens tree)
    (hcomma : comma.category = .symbol .comma) (h : Reads setting .arguments more trees) :
    Reads setting .arguments (tokens ++ comma :: more) (tree :: trees) := by
  intro count before rest hrest hcount hnext
  rw [List.length_cons] at hcount
  refine Gives.read hending (Gives.checkLimit_bind hlimit (by omega) ?_)
  refine (hfirst before (comma :: (more ++ rest)) (by simpa using hrest)
    (.inr (.inr (by simp [hcomma])))).bind fun argument first hargument hafter => ?_
  refine Gives.accepts_yes hafter hcomma fun second hsecond => ?_
  refine (h (count + 1) second rest hsecond (by omega) hnext).bind fun read third hmore hthird => ?_
  exact Gives.pure hthird (by simp [Expr.eraseAll, hargument, hmore])

omit hending hlimit in
theorem reads_someParameters {names : List Token} (h : Reads setting .parameters tokens names)
    (hbegins : ∃ token more, tokens = token :: more ∧
      Phrase.parameters.begins token.category = true)
    (hlength : names.length ≤ 8) : Reads setting .parameterList tokens names := by
  intro before rest hrest hnext
  obtain ⟨token, more, rfl, htoken⟩ := hbegins
  refine Gives.sees_no ?_ (h 0 before rest hrest (by omega) hnext)
  intro hparen
  simp only [hrest, List.cons_append, nextOf_cons, Option.some.injEq] at hparen
  simp [Phrase.begins, hparen] at htoken

omit hending hlimit in
theorem not_beginsExpression {token : Token} {more : List Token} {symbol : Symbol}
    (htoken : beginsExpression token.category = true)
    (hsymbol : symbol = .semicolon ∨ symbol = .rightParen) :
    nextOf (token :: more) ≠ some (.symbol symbol) := by
  intro hnext
  rw [nextOf_cons, Option.some.injEq] at hnext
  rcases hsymbol with rfl | rfl <;> simp [hnext, beginsExpression, beginsPrimary] at htoken

omit hending hlimit in
theorem reads_someArguments {trees : List Expr} (h : Reads setting .arguments tokens trees)
    (hbegins : ∃ token more, tokens = token :: more ∧ beginsExpression token.category = true)
    (hlength : trees.length ≤ 8) : Reads setting .argumentList tokens trees := by
  intro before rest hrest hnext
  obtain ⟨token, more, rfl, htoken⟩ := hbegins
  refine Gives.sees_no ?_ (h 0 before rest hrest (by omega) hnext)
  rw [hrest]
  exact not_beginsExpression htoken (.inr rfl)

omit hending hlimit in
theorem reads_someExpression {tree : Expr} (h : Reads setting (.expression .assignment) tokens tree)
    (hbegins : ∃ token more, tokens = token :: more ∧ beginsExpression token.category = true) :
    Reads setting .optionalExpression tokens (some tree) := by
  intro symbol before rest hrest hsymbol hnext
  obtain ⟨token, more, rfl, htoken⟩ := hbegins
  have hcloses : Closes rest := by
    rcases hsymbol with rfl | rfl
    · exact .inl hnext
    · exact .inr (.inl hnext)
  refine Gives.sees_no ?_ ?_
  · rw [hrest]
    exact not_beginsExpression htoken hsymbol
  · exact (h before rest hrest hcloses).bind fun value middle hvalue hmiddle =>
      Gives.pure hmiddle (by simp [hvalue])

end

section

variable (hending : setting.ending.category = .eof) {tokens : List Token}

/-! ### Declarations -/

theorem reads_block {left right : Token} {trees : List Stmt}
    (hleft : left.category = .symbol .leftBrace) (h : Reads setting .declarations tokens trees)
    (hright : right.category = .symbol .rightBrace) :
    Reads setting .block (left :: (tokens ++ [right])) trees := by
  refine ⟨left, tokens ++ [right], rfl, hleft, fun before rest hrest => ?_⟩
  refine (h true before (right :: rest) (by simpa using hrest)
    (.inr ⟨rfl, by simp [hright]⟩)).bind fun body first hbody hfirst => ?_
  exact Gives.expect_bind hfirst hright fun second hsecond => Gives.pure hsecond hbody

theorem reads_function {name left right : Token} {body names : List Token} {trees : List Stmt}
    (hname : name.category = .identifier) (hleft : left.category = .symbol .leftParen)
    (hparameters : Reads setting .parameterList tokens names)
    (hright : right.category = .symbol .rightParen) (hbody : Reads setting .block body trees) :
    Reads setting .function (name :: left :: (tokens ++ right :: body)) ⟨name, names, trees⟩ := by
  intro form before rest hrest
  obtain ⟨brace, more, rfl, hbrace, hread⟩ := hbody
  refine Gives.expect_bind hrest hname fun first hfirst => ?_
  refine Gives.expect_bind hfirst hleft fun second hsecond => ?_
  refine (hparameters second (right :: brace :: (more ++ rest)) (by simpa using hsecond)
    (by simp [hright])).bind fun parameters third hread' hthird => ?_
  refine Gives.expect_bind hthird hright fun fourth hfourth => ?_
  refine Gives.expect_bind hfourth hbrace fun fifth hfifth => ?_
  refine (hread fifth rest hfifth).bind fun statements last hstatements hlast => ?_
  exact Gives.pure hlast (by simp [FunctionDecl.erase, hread', hstatements])

include hending in
theorem reads_noFunctions : Reads setting .functions [] [] := by
  intro before rest hrest hnext
  have hbrace : before.next? = some (.symbol .rightBrace) := by rw [State.next?, hrest]; exact hnext
  refine Gives.read hending (Gives.of_eq (bind_of_ok (result_sees _)) rfl ?_)
  refine Gives.of_eq (bind_of_ok result_atEnd) rfl ?_
  simp only [hbrace, decide_true, Bool.true_or, if_true]
  exact Gives.pure hrest rfl

include hending in
theorem reads_moreFunctions {more : List Token} {tree : FunctionDecl} {trees : List FunctionDecl}
    (hbegins : ∃ token more, tokens = token :: more ∧
      Phrase.function.begins token.category = true)
    (hfirst : Reads setting .function tokens tree) (h : Reads setting .functions more trees) :
    Reads setting .functions (tokens ++ more) (tree :: trees) := by
  intro before rest hrest hnext
  obtain ⟨token, others, rfl, htoken⟩ := hbegins
  have hbrace : before.next? ≠ some (.symbol .rightBrace) := by
    intro hbrace
    simp only [State.next?, hrest, List.cons_append, nextOf_cons, Option.some.injEq] at hbrace
    simp [Phrase.begins, hbrace] at htoken
  refine Gives.read hending (Gives.of_eq (bind_of_ok (result_sees _)) rfl ?_)
  refine Gives.of_eq (bind_of_ok result_atEnd) rfl ?_
  simp only [hbrace, hrest, decide_false, Bool.false_or, List.cons_append, List.isEmpty_cons,
    Bool.false_eq_true, if_false]
  refine (hfirst .method before (more ++ rest) (by simpa using hrest)).bind
    fun method first hmethod hfirst => ?_
  refine (h first rest hfirst hnext).bind fun methods last hmethods hlast => ?_
  exact Gives.pure hlast (by simp [FunctionDecl.eraseAll, hmethod, hmethods])

theorem reads_class {keyword name left right : Token} {trees : List FunctionDecl}
    (hkeyword : keyword.category = .keyword .class_) (hname : name.category = .identifier)
    (hleft : left.category = .symbol .leftBrace) (h : Reads setting .functions tokens trees)
    (hright : right.category = .symbol .rightBrace) :
    Reads setting .classDeclaration (keyword :: name :: left :: (tokens ++ [right]))
      (.class_ name none trees) := by
  refine ⟨keyword, _, rfl, hkeyword, fun before rest hrest => ?_⟩
  refine Gives.expect_bind hrest hname fun first hfirst => ?_
  have hclause : Gives superclassClause setting first first.rest (· = none) := by
    refine Gives.accepts_no ?_ (Gives.pure rfl rfl)
    simp [hfirst, hleft]
  refine hclause.bind fun superclass second hsuperclass hsecond => ?_
  refine Gives.expect_bind (hsecond.trans hfirst) hleft fun third hthird => ?_
  refine (h third (right :: rest) (by simpa using hthird) (by simp [hright])).bind
    fun methods fourth hmethods hfourth => ?_
  refine Gives.expect_bind hfourth hright fun fifth hfifth => ?_
  exact Gives.pure hfifth (by simp [Stmt.erase, hsuperclass, hmethods])

theorem reads_subclass {keyword name less superclass left right : Token}
    {trees : List FunctionDecl} (hkeyword : keyword.category = .keyword .class_)
    (hname : name.category = .identifier) (hless : less.category = .symbol .less)
    (hsuperclass : superclass.category = .identifier)
    (hleft : left.category = .symbol .leftBrace) (h : Reads setting .functions tokens trees)
    (hright : right.category = .symbol .rightBrace) :
    Reads setting .classDeclaration
      (keyword :: name :: less :: superclass :: left :: (tokens ++ [right]))
      (.class_ name (some (.var 0 superclass)) trees) := by
  refine ⟨keyword, _, rfl, hkeyword, fun before rest hrest => ?_⟩
  refine Gives.expect_bind hrest hname fun first hfirst => ?_
  have hclause : Gives superclassClause setting first (left :: (tokens ++ right :: rest))
      (Option.map Expr.erase · = some (.var 0 superclass)) := by
    refine Gives.accepts_yes hfirst hless fun second hsecond => ?_
    refine Gives.expect_bind hsecond hsuperclass fun third hthird => ?_
    exact Gives.freshId_bind fun id fourth hfourth =>
      Gives.pure (hfourth.trans (by simpa using hthird)) (by simp [Expr.erase])
  refine hclause.bind fun parent second hparent hsecond => ?_
  refine Gives.expect_bind hsecond hleft fun third hthird => ?_
  refine (h third (right :: rest) hthird (by simp [hright])).bind
    fun methods fourth hmethods hfourth => ?_
  refine Gives.expect_bind hfourth hright fun fifth hfifth => ?_
  exact Gives.pure hfifth (by simp [Stmt.erase, hparent, hmethods])

theorem reads_variable {keyword name semicolon : Token}
    (hkeyword : keyword.category = .keyword .var_) (hname : name.category = .identifier)
    (hsemicolon : semicolon.category = .symbol .semicolon) :
    Reads setting .variableDeclaration [keyword, name, semicolon] (.var name none) := by
  refine ⟨keyword, _, rfl, hkeyword, fun before rest hrest => ?_⟩
  refine Gives.expect_bind hrest hname fun first hfirst => ?_
  have hclause : Gives (initializerClause Rule.read) setting first first.rest (· = none) := by
    refine Gives.accepts_no ?_ (Gives.pure rfl rfl)
    simp [hfirst, hsemicolon]
  refine hclause.bind fun initializer second hinitializer hsecond => ?_
  refine Gives.expect_bind (hsecond.trans hfirst) hsemicolon fun third hthird => ?_
  exact Gives.pure hthird (by simp [Stmt.erase, hinitializer])

theorem reads_initializedVariable {keyword name equal semicolon : Token} {value : Expr}
    (hkeyword : keyword.category = .keyword .var_) (hname : name.category = .identifier)
    (hequal : equal.category = .symbol .equal)
    (h : Reads setting (.expression .assignment) tokens value)
    (hsemicolon : semicolon.category = .symbol .semicolon) :
    Reads setting .variableDeclaration (keyword :: name :: equal :: (tokens ++ [semicolon]))
      (.var name (some value)) := by
  refine ⟨keyword, _, rfl, hkeyword, fun before rest hrest => ?_⟩
  refine Gives.expect_bind hrest hname fun first hfirst => ?_
  have hclause : Gives (initializerClause Rule.read) setting first (semicolon :: rest)
      (Option.map Expr.erase · = some value) := by
    refine Gives.accepts_yes hfirst hequal fun second hsecond => ?_
    refine (h second (semicolon :: rest) (by simpa using hsecond)
      (.inl (by simp [hsemicolon]))).bind fun initial third hinitial hthird => ?_
    exact Gives.pure hthird (by simp [hinitial])
  refine hclause.bind fun initializer second hinitializer hsecond => ?_
  refine Gives.expect_bind hsecond hsemicolon fun third hthird => ?_
  exact Gives.pure hthird (by simp [Stmt.erase, hinitializer])

/-! ### Which declaration it is -/

theorem reads_classDeclaration {tree : Stmt} (h : Reads setting .classDeclaration tokens tree) :
    Reads setting .declaration tokens tree := by
  intro before rest hrest _
  obtain ⟨keyword, more, rfl, hkeyword, hread⟩ := h
  exact Gives.accepts_yes hrest hkeyword fun first hfirst => hread first rest hfirst

theorem reads_functionDeclaration {keyword : Token} {tree : FunctionDecl}
    (hkeyword : keyword.category = .keyword .fun_) (h : Reads setting .function tokens tree) :
    Reads setting .declaration (keyword :: tokens) (.function tree) := by
  intro before rest hrest _
  refine Gives.accepts_no (by simp [hrest, hkeyword]) ?_
  refine Gives.accepts_yes hrest hkeyword fun first hfirst => ?_
  exact (h .function first rest hfirst).bind fun declaration last hdeclaration hlast =>
    Gives.pure hlast (by simp [Stmt.erase, hdeclaration])

theorem reads_variableDeclaration {tree : Stmt}
    (h : Reads setting .variableDeclaration tokens tree) :
    Reads setting .declaration tokens tree := by
  intro before rest hrest _
  obtain ⟨keyword, more, rfl, hkeyword, hread⟩ := h
  refine Gives.accepts_no (by simp [hrest, hkeyword]) ?_
  refine Gives.accepts_no (by simp [hrest, hkeyword]) ?_
  exact Gives.accepts_yes hrest hkeyword fun first hfirst => hread first rest hfirst

theorem reads_statement {dangling : Bool} {tree : Stmt}
    (hbegins : ∃ token more, tokens = token :: more ∧ beginsPlain token.category = true)
    (h : Reads setting (.statement dangling) tokens tree) :
    Reads setting .declaration tokens tree := by
  intro before rest hrest hnext
  obtain ⟨token, more, rfl, htoken⟩ := hbegins
  have hnot : ∀ {category}, beginsPlain category = false →
      nextOf before.rest ≠ some category := by
    intro category hcategory hsome
    simp only [hrest, List.cons_append, nextOf_cons, Option.some.injEq] at hsome
    rw [hsome, hcategory] at htoken
    cases htoken
  refine Gives.accepts_no (hnot rfl) (Gives.accepts_no (hnot rfl) (Gives.accepts_no (hnot rfl) ?_))
  exact h before rest hrest fun _ => hnext

/-- A declaration that is understood is read as such, without recovery. -/
theorem declaration_gives {rest : List Token} {good : Stmt → Prop}
    (hending : setting.ending.category = .eof)
    (h : Gives (plainDeclaration Rule.read) setting before rest good) :
    Gives (Rule.read .declaration) setting before rest
      (fun read => ∃ statement, read = some statement ∧ good statement) := by
  obtain ⟨statement, after, hresult, hrest, herrors, hgood⟩ := h
  refine Gives.read hending ⟨some statement, after, ?_, hrest, herrors, statement, rfl, hgood⟩
  change result (declaration Rule.read) setting before = _
  rw [declaration, result_tryCatch, map_eq_bind, bind_of_ok hresult]
  rfl

include hending in
theorem reads_noDeclarations : Reads setting .declarations [] [] := by
  intro inBlock before rest hrest hend
  refine Gives.read hending (Gives.of_eq (bind_of_ok (result_sees _)) rfl ?_)
  refine Gives.of_eq (bind_of_ok result_atEnd) rfl ?_
  rcases hend with rfl | ⟨rfl, hnext⟩
  · simp only [hrest, List.append_nil, List.isEmpty_nil, Bool.or_true, if_true]
    exact Gives.pure hrest rfl
  · have hbrace : before.next? = some (.symbol .rightBrace) := by
      rw [State.next?, hrest]
      exact hnext
    simp only [hbrace, decide_true, Bool.true_and, Bool.true_or, if_true]
    exact Gives.pure hrest rfl

include hending in
theorem reads_moreDeclarations {more : List Token} {tree : Stmt} {trees : List Stmt}
    (hbegins : ∃ token others, tokens = token :: others ∧
      beginsDeclaration token.category = true)
    (hmore : BeginsWell .declarations more) (hfirst : Reads setting .declaration tokens tree)
    (h : Reads setting .declarations more trees) :
    Reads setting .declarations (tokens ++ more) (tree :: trees) := by
  intro inBlock before rest hrest hend
  obtain ⟨token, others, rfl, htoken⟩ := hbegins
  have hbrace : before.next? ≠ some (.symbol .rightBrace) := by
    intro hbrace
    simp only [State.next?, hrest, List.cons_append, nextOf_cons, Option.some.injEq] at hbrace
    simp [hbrace, beginsDeclaration, beginsPlain, beginsExpression, beginsPrimary] at htoken
  have helse : nextOf (more ++ rest) ≠ some (.keyword .else_) := by
    rcases hmore with ⟨next, last, rfl, hnext⟩ | ⟨rfl, -⟩
    · intro hsome
      simp only [List.cons_append, nextOf_cons, Option.some.injEq] at hsome
      simp [Phrase.begins, hsome, beginsDeclaration, beginsPlain, beginsExpression,
        beginsPrimary] at hnext
    · rcases hend with rfl | ⟨-, hnext⟩
      · simp
      · simp [hnext]
  refine Gives.read hending (Gives.of_eq (bind_of_ok (result_sees _)) rfl ?_)
  refine Gives.of_eq (bind_of_ok result_atEnd) rfl ?_
  simp only [hbrace, hrest, decide_false, Bool.and_false, Bool.false_or, List.cons_append,
    List.isEmpty_cons, Bool.false_eq_true, if_false]
  refine (declaration_gives hending
    (hfirst before (more ++ rest) (by simpa using hrest) helse)).bind
      fun read first hread hafter => ?_
  obtain ⟨statement, rfl, hstatement⟩ := hread
  refine (h inBlock first rest hafter hend).bind fun statements last hstatements hlast => ?_
  exact Gives.pure hlast (by simp [Stmt.eraseAll, hstatement, hstatements])

/-! ### Statements -/

/-- What an expression statement leaves to its caller: its first token begins no other one. -/
theorem expressionStatement_gives {semicolon : Token} {value : Expr} {rest : List Token}
    (h : Reads setting (.expression .assignment) tokens value)
    (hsemicolon : semicolon.category = .symbol .semicolon)
    (hrest : before.rest = tokens ++ semicolon :: rest) :
    Gives (expressionStatement Rule.read) setting before rest
      (Stmt.erase · = .expression value) := by
  refine (h before (semicolon :: rest) hrest (.inl (by simp [hsemicolon]))).bind
    fun read first hread hfirst => ?_
  exact Gives.expect_bind hfirst hsemicolon fun second hsecond =>
    Gives.pure hsecond (by simp [Stmt.erase, hread])

theorem forInitializer_none {semicolon : Token}
    (hsemicolon : semicolon.category = .symbol .semicolon) :
    Reads setting .forInitializer [semicolon] none := by
  intro before rest hrest
  exact Gives.accepts_yes hrest hsemicolon fun first hfirst => Gives.pure hfirst rfl

theorem forInitializer_variable {tree : Stmt} (h : Reads setting .variableDeclaration tokens tree) :
    Reads setting .forInitializer tokens (some tree) := by
  intro before rest hrest
  obtain ⟨keyword, more, rfl, hkeyword, hread⟩ := h
  refine Gives.accepts_no (by simp [hrest, hkeyword]) ?_
  refine Gives.accepts_yes hrest hkeyword fun first hfirst => ?_
  exact (hread first rest hfirst).map fun statement hstatement => by simp [hstatement]

theorem forInitializer_expression {semicolon : Token} {value : Expr}
    (hbegins : ∃ token more, tokens = token :: more ∧ beginsExpression token.category = true)
    (h : Reads setting (.expression .assignment) tokens value)
    (hsemicolon : semicolon.category = .symbol .semicolon) :
    Reads setting .forInitializer (tokens ++ [semicolon]) (some (.expression value)) := by
  intro before rest hrest
  have hfront : before.rest = tokens ++ semicolon :: rest := by simpa using hrest
  have hgives := expressionStatement_gives h hsemicolon hfront
  obtain ⟨token, more, rfl, htoken⟩ := hbegins
  have hnot : ∀ {category}, beginsExpression category = false →
      nextOf before.rest ≠ some category := by
    intro category hcategory hsome
    simp only [hrest, List.cons_append, nextOf_cons, Option.some.injEq] at hsome
    rw [hsome, hcategory] at htoken
    cases htoken
  refine Gives.accepts_no (hnot rfl) (Gives.accepts_no (hnot rfl) ?_)
  exact hgives.map fun statement hstatement => by simp [hstatement]

include hending

theorem statement_expression {semicolon : Token} {value : Expr}
    (hbegins : ∃ token more, tokens = token :: more ∧ beginsExpression token.category = true)
    (h : Reads setting (.expression .assignment) tokens value)
    (hsemicolon : semicolon.category = .symbol .semicolon) :
    Reads setting (.statement false) (tokens ++ [semicolon]) (.expression value) := by
  intro before rest hrest _
  have hfront : before.rest = tokens ++ semicolon :: rest := by simpa using hrest
  have hgives := expressionStatement_gives h hsemicolon hfront
  obtain ⟨token, more, rfl, htoken⟩ := hbegins
  have hnot : ∀ {category}, beginsExpression category = false →
      nextOf before.rest ≠ some category := by
    intro category hcategory hsome
    simp only [hrest, List.cons_append, nextOf_cons, Option.some.injEq] at hsome
    rw [hsome, hcategory] at htoken
    cases htoken
  refine Gives.read hending (Gives.of_eq (bind_of_ok result_peek) rfl ?_)
  refine Gives.accepts_no (hnot rfl) (Gives.accepts_no (hnot rfl) (Gives.accepts_no (hnot rfl) ?_))
  refine Gives.accepts_no (hnot rfl) (Gives.accepts_no (hnot rfl) (Gives.accepts_no (hnot rfl) ?_))
  exact hgives

theorem statement_print {keyword semicolon : Token} {value : Expr}
    (hkeyword : keyword.category = .keyword .print_)
    (h : Reads setting (.expression .assignment) tokens value)
    (hsemicolon : semicolon.category = .symbol .semicolon) :
    Reads setting (.statement false) (keyword :: (tokens ++ [semicolon])) (.print value) := by
  intro before rest hrest _
  refine Gives.read hending (Gives.peek_bind hrest ?_)
  refine Gives.accepts_no (by simp [hrest, hkeyword]) ?_
  refine Gives.accepts_no (by simp [hrest, hkeyword]) ?_
  refine Gives.accepts_yes hrest hkeyword fun first hfirst => ?_
  refine (h first (semicolon :: rest) (by simpa using hfirst)
    (.inl (by simp [hsemicolon]))).bind fun read second hread hsecond => ?_
  exact Gives.expect_bind hsecond hsemicolon fun third hthird =>
    Gives.pure hthird (by simp [Stmt.erase, hread])

theorem statement_return {keyword semicolon : Token} {value : Option Expr}
    (hkeyword : keyword.category = .keyword .return_)
    (h : Reads setting .optionalExpression tokens value)
    (hsemicolon : semicolon.category = .symbol .semicolon) :
    Reads setting (.statement false) (keyword :: (tokens ++ [semicolon]))
      (.return_ keyword value) := by
  intro before rest hrest _
  refine Gives.read hending (Gives.peek_bind hrest ?_)
  refine Gives.accepts_no (by simp [hrest, hkeyword]) ?_
  refine Gives.accepts_no (by simp [hrest, hkeyword]) ?_
  refine Gives.accepts_no (by simp [hrest, hkeyword]) ?_
  refine Gives.accepts_yes hrest hkeyword fun first hfirst => ?_
  refine (h .semicolon first (semicolon :: rest) (by simpa using hfirst) (.inl rfl)
    (by simp [hsemicolon])).bind fun read second hread hsecond => ?_
  exact Gives.expect_bind hsecond hsemicolon fun third hthird =>
    Gives.pure hthird (by simp [Stmt.erase, hread])

theorem statement_block {trees : List Stmt} (h : Reads setting .block tokens trees) :
    Reads setting (.statement false) tokens (.block trees) := by
  intro before rest hrest _
  obtain ⟨left, more, rfl, hleft, hread⟩ := h
  refine Gives.read hending (Gives.peek_bind hrest ?_)
  refine Gives.accepts_no (by simp [hrest, hleft]) (Gives.accepts_no (by simp [hrest, hleft]) ?_)
  refine Gives.accepts_no (by simp [hrest, hleft]) (Gives.accepts_no (by simp [hrest, hleft]) ?_)
  refine Gives.accepts_no (by simp [hrest, hleft]) ?_
  refine Gives.accepts_yes hrest hleft fun first hfirst => ?_
  exact (hread first rest hfirst).bind fun body last hbody hlast =>
    Gives.pure hlast (by simp [Stmt.erase, hbody])

theorem statement_ifThen {keyword left right : Token} {branch : List Token} {condition : Expr}
    {thenBranch : Stmt} {dangling : Bool} (hkeyword : keyword.category = .keyword .if_)
    (hleft : left.category = .symbol .leftParen)
    (hcondition : Reads setting (.expression .assignment) tokens condition)
    (hright : right.category = .symbol .rightParen)
    (h : Reads setting (.statement dangling) branch thenBranch) :
    Reads setting (.statement true) (keyword :: left :: (tokens ++ right :: branch))
      (.ifThen condition thenBranch) := by
  intro before rest hrest hnext
  refine Gives.read hending (Gives.peek_bind hrest ?_)
  refine Gives.accepts_no (by simp [hrest, hkeyword]) ?_
  refine Gives.accepts_yes hrest hkeyword fun first hfirst => ?_
  refine Gives.expect_bind hfirst hleft fun second hsecond => ?_
  refine (hcondition second (right :: (branch ++ rest)) (by simpa using hsecond)
    (.inr (.inl (by simp [hright])))).bind fun test third htest hthird => ?_
  refine Gives.expect_bind hthird hright fun fourth hfourth => ?_
  refine (h fourth rest hfourth fun _ => hnext rfl).bind fun body fifth hbody hfifth => ?_
  refine Gives.accepts_no (by rw [hfifth]; exact hnext rfl) ?_
  exact Gives.pure hfifth (by simp [Stmt.erase, htest, hbody])

theorem statement_ifElse {keyword left right else_ : Token} {branch other : List Token}
    {condition : Expr} {thenBranch elseBranch : Stmt} {dangling : Bool}
    (hkeyword : keyword.category = .keyword .if_) (hleft : left.category = .symbol .leftParen)
    (hcondition : Reads setting (.expression .assignment) tokens condition)
    (hright : right.category = .symbol .rightParen)
    (hthen : Reads setting (.statement false) branch thenBranch)
    (helse : else_.category = .keyword .else_)
    (h : Reads setting (.statement dangling) other elseBranch) :
    Reads setting (.statement dangling)
      (keyword :: left :: (tokens ++ right :: (branch ++ else_ :: other)))
      (.ifElse condition thenBranch elseBranch) := by
  intro before rest hrest hnext
  refine Gives.read hending (Gives.peek_bind hrest ?_)
  refine Gives.accepts_no (by simp [hrest, hkeyword]) ?_
  refine Gives.accepts_yes hrest hkeyword fun first hfirst => ?_
  refine Gives.expect_bind hfirst hleft fun second hsecond => ?_
  refine (hcondition second (right :: (branch ++ else_ :: (other ++ rest)))
    (by simpa using hsecond) (.inr (.inl (by simp [hright])))).bind
      fun test third htest hthird => ?_
  refine Gives.expect_bind hthird hright fun fourth hfourth => ?_
  refine (hthen fourth (else_ :: (other ++ rest)) hfourth nofun).bind
    fun body fifth hbody hfifth => ?_
  refine Gives.accepts_yes hfifth helse fun sixth hsixth => ?_
  refine (h sixth rest hsixth hnext).bind fun second seventh hsecond hseventh => ?_
  exact Gives.pure hseventh (by simp [Stmt.erase, htest, hbody, hsecond])

theorem statement_while {keyword left right : Token} {more : List Token} {condition : Expr}
    {body : Stmt} {dangling : Bool} (hkeyword : keyword.category = .keyword .while_)
    (hleft : left.category = .symbol .leftParen)
    (hcondition : Reads setting (.expression .assignment) tokens condition)
    (hright : right.category = .symbol .rightParen)
    (h : Reads setting (.statement dangling) more body) :
    Reads setting (.statement dangling) (keyword :: left :: (tokens ++ right :: more))
      (.while_ condition body) := by
  intro before rest hrest hnext
  refine Gives.read hending (Gives.peek_bind hrest ?_)
  refine Gives.accepts_no (by simp [hrest, hkeyword]) ?_
  refine Gives.accepts_no (by simp [hrest, hkeyword]) ?_
  refine Gives.accepts_no (by simp [hrest, hkeyword]) ?_
  refine Gives.accepts_no (by simp [hrest, hkeyword]) ?_
  refine Gives.accepts_yes hrest hkeyword fun first hfirst => ?_
  refine Gives.expect_bind hfirst hleft fun second hsecond => ?_
  refine (hcondition second (right :: (more ++ rest)) (by simpa using hsecond)
    (.inr (.inl (by simp [hright])))).bind fun test third htest hthird => ?_
  refine Gives.expect_bind hthird hright fun fourth hfourth => ?_
  refine (h fourth rest hfourth hnext).bind fun statement fifth hbody hfifth => ?_
  exact Gives.pure hfifth (by simp [Stmt.erase, htest, hbody])

theorem statement_for {keyword left semicolon right : Token} {test step more : List Token}
    {initializer : Option Stmt} {condition increment : Option Expr} {body : Stmt}
    {dangling : Bool} (hkeyword : keyword.category = .keyword .for_)
    (hleft : left.category = .symbol .leftParen)
    (hinitializer : Reads setting .forInitializer tokens initializer)
    (hcondition : Reads setting .optionalExpression test condition)
    (hsemicolon : semicolon.category = .symbol .semicolon)
    (hincrement : Reads setting .optionalExpression step increment)
    (hright : right.category = .symbol .rightParen)
    (h : Reads setting (.statement dangling) more body) :
    Reads setting (.statement dangling)
      (keyword :: left :: (tokens ++ (test ++ semicolon :: (step ++ right :: more))))
      (desugarFor initializer condition increment body) := by
  intro before rest hrest hnext
  refine Gives.read hending (Gives.peek_bind hrest ?_)
  refine Gives.accepts_yes hrest hkeyword fun first hfirst => ?_
  refine Gives.expect_bind hfirst hleft fun second hsecond => ?_
  refine (hinitializer second (test ++ semicolon :: (step ++ right :: (more ++ rest)))
    (by simpa using hsecond)).bind fun read third hread hthird => ?_
  refine (hcondition .semicolon third (semicolon :: (step ++ right :: (more ++ rest))) hthird
    (.inl rfl) (by simp [hsemicolon])).bind fun test fourth htest hfourth => ?_
  refine Gives.expect_bind hfourth hsemicolon fun fifth hfifth => ?_
  refine (hincrement .rightParen fifth (right :: (more ++ rest)) hfifth (.inr rfl)
    (by simp [hright])).bind fun step sixth hstep hsixth => ?_
  refine Gives.expect_bind hsixth hright fun seventh hseventh => ?_
  refine (h seventh rest hseventh hnext).bind fun statement eighth hbody heighth => ?_
  have htrue : Gives (orTrue test) setting eighth rest
      (Expr.erase · = condition.getD (.literal 0 (.bool true))) := by
    subst htest
    cases test with
    | none =>
        exact Gives.freshId_bind fun id last hlast => Gives.pure (hlast.trans heighth) rfl
    | some test => exact Gives.pure heighth rfl
  refine htrue.bind fun condition last hcondition hlast => ?_
  subst hread hstep hbody
  cases read <;> cases step <;>
    exact Gives.pure hlast (by simp [Stmt.erase, Stmt.eraseAll, desugarFor, hcondition])

end

/-- Every phrase of the grammar is read with its tree. -/
theorem Derives.reads (hending : setting.ending.category = .eof)
    (hlimit : setting.limit = some entryLimit) {phrase : Phrase} {tokens : List Token}
    {tree : phrase.Tree} (h : Derives true phrase tokens tree) :
    Reads setting phrase tokens tree := by
  induction h with
  | noDeclarations => exact reads_noDeclarations hending
  | moreDeclarations hfirst hrest ihFirst ihRest =>
      exact reads_moreDeclarations hending (hfirst.beginsWell.exists_cons rfl) hrest.beginsWell
        ihFirst ihRest
  | classDeclaration _ ih => exact reads_classDeclaration ih
  | functionDeclaration hkeyword _ ih => exact reads_functionDeclaration hkeyword ih
  | variableDeclaration _ ih => exact reads_variableDeclaration ih
  | statement h ih => exact reads_statement (h.beginsWell.exists_cons rfl) ih
  | class_ hkeyword hname hleft _ hright ih => exact reads_class hkeyword hname hleft ih hright
  | subclass hkeyword hname hless hsuperclass hleft _ hright ih =>
      exact reads_subclass hkeyword hname hless hsuperclass hleft ih hright
  | noFunctions => exact reads_noFunctions hending
  | moreFunctions hfirst _ ihFirst ihRest =>
      exact reads_moreFunctions hending (hfirst.beginsWell.exists_cons rfl) ihFirst ihRest
  | function hname hleft _ hright _ ihParameters ihBody =>
      exact reads_function hname hleft ihParameters hright ihBody
  | noParameters =>
      exact fun before rest hrest hnext => Gives.sees_yes (by rw [hrest]; exact hnext)
        (Gives.pure hrest rfl)
  | someParameters h hlength ih =>
      exact reads_someParameters ih (h.beginsWell.exists_cons rfl) hlength
  | lastParameter hname => exact reads_lastParameter hending hlimit hname
  | moreParameters hname hcomma _ ih => exact reads_moreParameters hending hlimit hname hcomma ih
  | variable_ hkeyword hname hsemicolon => exact reads_variable hkeyword hname hsemicolon
  | initializedVariable hkeyword hname hequal _ hsemicolon ih =>
      exact reads_initializedVariable hkeyword hname hequal ih hsemicolon
  | block hleft _ hright ih => exact reads_block hleft ih hright
  | expressionStatement h hsemicolon ih =>
      exact statement_expression hending (h.beginsWell.exists_cons rfl) ih hsemicolon
  | print hkeyword _ hsemicolon ih => exact statement_print hending hkeyword ih hsemicolon
  | return_ hkeyword _ hsemicolon ih => exact statement_return hending hkeyword ih hsemicolon
  | blockStatement _ ih => exact statement_block hending ih
  | ifThen hkeyword hleft _ hright _ ihTest ihBranch =>
      exact statement_ifThen hending hkeyword hleft ihTest hright ihBranch
  | ifElse hkeyword hleft _ hright _ hopen helse _ ihTest ihFirst ihSecond =>
      obtain rfl := hopen rfl
      exact statement_ifElse hending hkeyword hleft ihTest hright ihFirst helse ihSecond
  | while_ hkeyword hleft _ hright _ ihTest ihBody =>
      exact statement_while hending hkeyword hleft ihTest hright ihBody
  | for_ hkeyword hleft _ _ hsemicolon _ hright _ ihFirst ihTest ihStep ihBody =>
      exact statement_for hending hkeyword hleft ihFirst ihTest hsemicolon ihStep hright ihBody
  | noInitializer hsemicolon => exact forInitializer_none hsemicolon
  | variableInitializer _ ih => exact forInitializer_variable ih
  | expressionInitializer h hsemicolon ih =>
      exact forInitializer_expression (h.beginsWell.exists_cons rfl) ih hsemicolon
  | noExpression =>
      exact fun symbol before rest hrest _ hnext => Gives.sees_yes (by rw [hrest]; exact hnext)
        (Gives.pure hrest rfl)
  | someExpression h ih => exact reads_someExpression ih (h.beginsWell.exists_cons rfl)
  | assign hname hequal _ ih =>
      have hcall := call_of_primary hending (primary_name hending hname)
      exact assignment_of_target hending hequal
        (operation_of_call hending _ ⟨_, _, rfl, by rw [hname]; rfl⟩ hcall) ih
        (.inl ⟨_, rfl, rfl⟩)
  | set hobject hdot hname hequal _ ihObject ihValue =>
      have hcall := call_property hending ihObject hdot hname
      have hbegins := (Derives.property hobject hdot hname).beginsWell.exists_cons rfl
      have hassigned := assignment_of_target hending hequal
        (operation_of_call hending _ hbegins hcall) ihValue (.inr ⟨_, _, rfl, rfl⟩)
      rwa [List.append_assoc] at hassigned
  | tighter hinner h ih =>
      exact readsExpression_of_inner hending hinner (h.beginsWell.exists_cons rfl) ih
  | infix_ hinner hoperator _ _ ihLeft ihRight =>
      exact readsExpression_join hending hinner hoperator ihLeft ihRight
  | unary hoperator _ ih => exact unary_sign hending hoperator ih
  | call _ hleft _ hright ihCallee ihArguments =>
      exact call_arguments hending ihCallee hleft ihArguments hright
  | property _ hdot hname ih => exact call_property hending ih hdot hname
  | noArguments =>
      exact fun before rest hrest hnext => Gives.sees_yes (by rw [hrest]; exact hnext)
        (Gives.pure hrest rfl)
  | someArguments h hlength ih =>
      exact reads_someArguments ih (h.beginsWell.exists_cons rfl) hlength
  | lastArgument _ ih => exact reads_lastArgument hending hlimit ih
  | moreArguments _ hcomma _ ihFirst ihRest =>
      exact reads_moreArguments hending hlimit ihFirst hcomma ihRest
  | number hkind | string hkind | true_ hkind | false_ hkind | nil_ hkind =>
      exact primary_literal hending (by rw [hkind]; rfl)
  | this_ hkeyword => exact primary_this hending hkeyword
  | name hname => exact primary_name hending hname
  | grouping hleft _ hright ih => exact primary_grouping hending hleft ih hright
  | super_ hkeyword hdot hmethod => exact primary_super hending hkeyword hdot hmethod

end Lox.Grammar
