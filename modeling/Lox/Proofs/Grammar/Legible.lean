import Lox.Proofs.Grammar.Parsing
import Lox.Proofs.Syntax.Decoding

/-!
# What is read can be told from how it is printed

The tree of a phrase whose tokens are lexemes has only lexemes of the right kinds in it. So if a
text is read without errors, its statements can be read back from what is printed for them.
-/

namespace Lox.Grammar

/-! ## Trees that are derived from lexemes -/

/-- The tokens of what a phrase stands for are lexemes of the right kinds. -/
def Phrase.Legible : (phrase : Phrase) → phrase.Tree → Prop
  | .declarations | .block => Stmt.LegibleAll
  | .declaration | .classDeclaration | .variableDeclaration | .statement _ => Stmt.Legible
  | .functions => FunctionDecl.LegibleAll
  | .function => FunctionDecl.Legible
  | .parameterList | .parameters => Token.NameAll Token.Lexical
  | .forInitializer => fun initializer => Stmt.LegibleAll initializer.toList
  | .optionalExpression => Expr.LegibleOpt
  | .expression _ => Expr.Legible
  | .argumentList | .arguments => Expr.LegibleAll

theorem Layer.join_legible {layer : Layer} {operator : Token} {left right : Expr}
    (hoperator : operator.category ∈ layer.operators) (hlexical : operator.Lexical)
    (hleft : left.Legible) (hright : right.Legible) : (layer.join left operator right).Legible := by
  have hbinary (h : ∀ category ∈ layer.operators, category ∈ binaryOperators) :
      (Expr.binary 0 left operator right).Legible := ⟨hleft, ⟨h _ hoperator, hlexical⟩, hright⟩
  have hlogical (h : ∀ category ∈ layer.operators, category ∈ logicalOperators) :
      (Expr.logical 0 left operator right).Legible := ⟨hleft, ⟨h _ hoperator, hlexical⟩, hright⟩
  cases layer with
  | logicOr | logicAnd => exact hlogical (by decide)
  | equality | comparison | term | factor => exact hbinary (by decide)
  | assignment | unary | call | primary => cases hoperator

theorem desugarFor_legible {initializer : Option Stmt} {condition increment : Option Expr}
    {body : Stmt} (hinitializer : Stmt.LegibleAll initializer.toList)
    (hcondition : Expr.LegibleOpt condition) (hincrement : Expr.LegibleOpt increment)
    (hbody : body.Legible) : (desugarFor initializer condition increment body).Legible := by
  have htest : (condition.getD (.literal 0 (.bool true))).Legible := by
    cases condition with
    | none => trivial
    | some condition => exact hcondition
  cases increment with
  | none =>
      cases initializer with
      | none => exact ⟨htest, hbody⟩
      | some initializer => exact ⟨hinitializer.1, ⟨htest, hbody⟩, trivial⟩
  | some increment =>
      cases initializer with
      | none => exact ⟨htest, hbody, hincrement, trivial⟩
      | some initializer => exact ⟨hinitializer.1, ⟨htest, hbody, hincrement, trivial⟩, trivial⟩

/-- The tree of a phrase of lexemes. -/
theorem Derives.legible {nearest : Bool} {phrase : Phrase} {tokens : List Token}
    {tree : phrase.Tree} (h : Derives nearest phrase tokens tree)
    (htokens : ∀ token ∈ tokens, token.Lexical) : phrase.Legible tree := by
  induction h with
  | noDeclarations | noFunctions | noExpression | noArguments | noInitializer => trivial
  | noParameters => exact List.forall_mem_nil _
  | moreDeclarations _ _ ihfirst ihrest | moreFunctions _ _ ihfirst ihrest =>
      obtain ⟨hfirst, hrest⟩ := List.forall_mem_append.mp htokens
      exact ⟨ihfirst hfirst, ihrest hrest⟩
  | classDeclaration _ ih | variableDeclaration _ ih | statement _ ih | blockStatement _ ih
  | someExpression _ ih | tighter _ _ ih | someArguments _ _ ih | someParameters _ _ ih =>
      exact ih htokens
  | variableInitializer _ ih => exact ⟨ih htokens, trivial⟩
  | lastArgument _ ih => exact ⟨ih htokens, trivial⟩
  | functionDeclaration _ _ ih => exact ih (List.forall_mem_cons.mp htokens).2
  | class_ _ hname _ _ _ ih =>
      simp only [List.forall_mem_cons, List.forall_mem_append] at htokens
      obtain ⟨-, hlexical, -, htrees, -⟩ := htokens
      exact ⟨⟨hname, hlexical⟩, trivial, ih htrees⟩
  | subclass _ hname _ hsuperclass _ _ _ ih =>
      simp only [List.forall_mem_cons, List.forall_mem_append] at htokens
      obtain ⟨-, hlexical, -, hlexical', -, htrees, -⟩ := htokens
      exact ⟨⟨hname, hlexical⟩, ⟨_, _, rfl, hsuperclass, hlexical'⟩, ih htrees⟩
  | function hname _ _ _ _ ihnames ihbody =>
      simp only [List.forall_mem_cons, List.forall_mem_append] at htokens
      obtain ⟨hlexical, -, hnames, -, hbody⟩ := htokens
      exact ⟨⟨hname, hlexical⟩, ihnames hnames, ihbody hbody⟩
  | lastParameter hname =>
      exact List.forall_mem_singleton.mpr ⟨hname, htokens _ List.mem_cons_self⟩
  | moreParameters hname _ _ ih =>
      simp only [List.forall_mem_cons] at htokens
      obtain ⟨hlexical, -, hnames⟩ := htokens
      exact List.forall_mem_cons.mpr ⟨⟨hname, hlexical⟩, ih hnames⟩
  | variable_ _ hname _ =>
      simp only [List.forall_mem_cons] at htokens
      exact ⟨⟨hname, htokens.2.1⟩, trivial⟩
  | initializedVariable _ hname _ _ _ ih =>
      simp only [List.forall_mem_cons, List.forall_mem_append] at htokens
      obtain ⟨-, hlexical, -, hvalue, -⟩ := htokens
      exact ⟨⟨hname, hlexical⟩, ih hvalue⟩
  | block _ _ _ ih =>
      simp only [List.forall_mem_cons, List.forall_mem_append] at htokens
      exact ih htokens.2.1
  | expressionStatement _ _ ih => exact ih (List.forall_mem_append.mp htokens).1
  | expressionInitializer _ _ ih => exact ⟨ih (List.forall_mem_append.mp htokens).1, trivial⟩
  | print _ _ _ ih =>
      simp only [List.forall_mem_cons, List.forall_mem_append] at htokens
      exact ih htokens.2.1
  | return_ hkeyword _ _ ih =>
      simp only [List.forall_mem_cons, List.forall_mem_append] at htokens
      exact ⟨⟨hkeyword, htokens.1⟩, ih htokens.2.1⟩
  | ifThen _ _ _ _ _ ihtest ihbranch =>
      simp only [List.forall_mem_cons, List.forall_mem_append] at htokens
      obtain ⟨-, -, htest, -, hbranch⟩ := htokens
      exact ⟨ihtest htest, ihbranch hbranch⟩
  | ifElse _ _ _ _ _ _ _ _ ihtest ihfirst ihsecond =>
      simp only [List.forall_mem_cons, List.forall_mem_append] at htokens
      obtain ⟨-, -, htest, -, hfirst, -, hsecond⟩ := htokens
      exact ⟨ihtest htest, ihfirst hfirst, ihsecond hsecond⟩
  | while_ _ _ _ _ _ ihtest ihbody =>
      simp only [List.forall_mem_cons, List.forall_mem_append] at htokens
      obtain ⟨-, -, htest, -, hbody⟩ := htokens
      exact ⟨ihtest htest, ihbody hbody⟩
  | for_ _ _ _ _ _ _ _ _ ihfirst ihtest ihstep ihbody =>
      simp only [List.forall_mem_cons, List.forall_mem_append] at htokens
      obtain ⟨-, -, hfirst, htest, -, hstep, -, hbody⟩ := htokens
      exact desugarFor_legible (ihfirst hfirst) (ihtest htest) (ihstep hstep) (ihbody hbody)
  | assign hname _ _ ih =>
      simp only [List.forall_mem_cons] at htokens
      obtain ⟨hlexical, -, hvalue⟩ := htokens
      exact ⟨⟨hname, hlexical⟩, ih hvalue⟩
  | set _ _ hname _ _ ihobject ihvalue =>
      simp only [List.forall_mem_cons, List.forall_mem_append] at htokens
      obtain ⟨hobject, -, hlexical, -, hvalue⟩ := htokens
      exact ⟨ihobject hobject, ⟨hname, hlexical⟩, ihvalue hvalue⟩
  | infix_ _ hoperator _ _ ihleft ihright =>
      simp only [List.forall_mem_cons, List.forall_mem_append] at htokens
      obtain ⟨hleft, hlexical, hright⟩ := htokens
      exact Layer.join_legible hoperator hlexical (ihleft hleft) (ihright hright)
  | unary hoperator _ ih =>
      obtain ⟨hlexical, hoperand⟩ := List.forall_mem_cons.mp htokens
      exact ⟨⟨by simpa [unaryOperators] using hoperator, hlexical⟩, ih hoperand⟩
  | call _ _ _ hparen ihcallee iharguments =>
      simp only [List.forall_mem_cons, List.forall_mem_append] at htokens
      obtain ⟨hcallee, -, harguments, hlexical, -⟩ := htokens
      exact ⟨ihcallee hcallee, ⟨hparen, hlexical⟩, iharguments harguments⟩
  | property _ _ hname ih =>
      simp only [List.forall_mem_cons, List.forall_mem_append] at htokens
      obtain ⟨hobject, -, hlexical, -⟩ := htokens
      exact ⟨ih hobject, hname, hlexical⟩
  | moreArguments _ _ _ ihfirst ihrest =>
      simp only [List.forall_mem_cons, List.forall_mem_append] at htokens
      obtain ⟨hfirst, -, hrest⟩ := htokens
      exact ⟨ihfirst hfirst, ihrest hrest⟩
  | number hkind => exact (htokens _ List.mem_cons_self).numeric hkind
  | string | true_ | false_ | nil_ => trivial
  | this_ hkeyword | name hkeyword => exact ⟨hkeyword, htokens _ List.mem_cons_self⟩
  | grouping _ _ _ ih =>
      simp only [List.forall_mem_cons, List.forall_mem_append] at htokens
      exact ih htokens.2.1
  | super_ hkeyword _ hmethod =>
      simp only [List.forall_mem_cons] at htokens
      obtain ⟨hlexical, -, hlexical', -⟩ := htokens
      exact ⟨⟨hkeyword, hlexical⟩, hmethod, hlexical'⟩

/-- The statements of a text that is read without errors. -/
theorem parse_legible {source : String} {nextId : NodeId}
    (h : (parse (tokens source) nextId).errors = []) :
    Stmt.LegibleAll (parse (tokens source) nextId).statements := by
  refine Stmt.legibleAll_of_erase ((parse_derives h).legible fun token htoken => ?_)
  have hcategory : token.category ≠ .eof := by simpa using List.mem_takeWhile_imp htoken
  have hmem : token ∈ tokens source := (List.takeWhile_sublist _).subset htoken
  exact (lexical_of_mem_tokens hmem).resolve_left hcategory

/-! ## Printed statements -/

/-- Statements that are printed alike are alike, but for identities and lines. -/
theorem printed_alike_same_tree {source source' : String} {nextId nextId' : NodeId} {s t : Stmt}
    (herrors : (parse (tokens source) nextId).errors = [])
    (herrors' : (parse (tokens source') nextId').errors = [])
    (hs : s ∈ (parse (tokens source) nextId).statements)
    (ht : t ∈ (parse (tokens source') nextId').statements)
    (hshown : ∀ value ∈ s.constants, value.Shown) (hshown' : ∀ value ∈ t.constants, value.Shown)
    (hrender : s.render = t.render) : s.bare = t.bare := by
  have hlegible := (parse_legible herrors).of_mem hs
  have hlegible' := (parse_legible herrors').of_mem ht
  have hform : s.form = t.form :=
    Form.text_injective (s.form_legal hlegible hshown) (t.form_legal hlegible' hshown')
      (by rw [s.text_form, t.text_form, hrender])
  obtain ⟨read, hread⟩ := Numeral.exists_readsBack
  calc s.bare = s.form.stmt read := (Stmt.stmt_form hread s hlegible hshown).symm
    _ = t.form.stmt read := by rw [hform]
    _ = t.bare := Stmt.stmt_form hread t hlegible' hshown'

/-- A call whose second argument is on the given line. -/
def callStatement (first : NodeId) (line : Nat) : Stmt :=
  .expression (.call (first + 4) (.var first ⟨.identifier, "f", 1⟩)
    ⟨.symbol .rightParen, ")", line⟩
    [.var (first + 1) ⟨.identifier, "a", 1⟩,
      .unary (first + 3) ⟨.symbol .bang, "!", line⟩ (.literal (first + 2) (.bool true))])

theorem printed_alike_same_tree_call :
    callStatement 0 1 ∈ (parse (tokens "f(a, !true);") 0).statements ∧
      callStatement 7 2 ∈ (parse (tokens "f(a,\n!true);") 7).statements ∧
      (callStatement 0 1).render = (callStatement 7 2).render ∧
      (callStatement 0 1).bare = (callStatement 7 2).bare := by
  have hs : callStatement 0 1 ∈ (parse (tokens "f(a, !true);") 0).statements :=
    List.mem_singleton_self _
  have ht : callStatement 7 2 ∈ (parse (tokens "f(a,\n!true);") 7).statements :=
    List.mem_singleton_self _
  have hshown (first : NodeId) (line : Nat) :
      ∀ value ∈ (callStatement first line).constants, value.Shown :=
    List.forall_mem_singleton.mpr trivial
  have hrender : (callStatement 0 1).render = (callStatement 7 2).render := by decide
  exact ⟨hs, ht, hrender,
    printed_alike_same_tree rfl rfl hs ht (hshown 0 1) (hshown 7 2) hrender⟩

end Lox.Grammar
