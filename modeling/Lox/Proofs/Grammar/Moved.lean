import Lox.Proofs.Grammar.Parsing
import Lox.Proofs.Syntax.Moved

/-!
# The grammar sees the kinds of tokens only

If the tokens of a phrase are replaced by others of the same kinds, they make up a phrase again,
whose tree has the tokens replaced. Declarations can be put one after the other, so that two
programs can be read as one.
-/

namespace Lox.Grammar

variable {f : Token → Token}

/-- What a phrase stands for, with its tokens replaced. -/
def Phrase.mapTokens (f : Token → Token) : (phrase : Phrase) → phrase.Tree → phrase.Tree
  | declarations, trees | block, trees => Stmt.mapTokensAll f trees
  | declaration, tree | classDeclaration, tree | variableDeclaration, tree | statement _, tree =>
      tree.mapTokens f
  | functions, trees => FunctionDecl.mapTokensAll f trees
  | function, tree => tree.mapTokens f
  | parameterList, names | parameters, names => names.map f
  | forInitializer, tree => Option.map (Stmt.mapTokens f) tree
  | optionalExpression, tree => Option.map (Expr.mapTokens f) tree
  | expression _, tree => tree.mapTokens f
  | argumentList, trees | arguments, trees => Expr.mapTokensAll f trees

theorem mapTokens_desugarFor (initializer : Option Stmt) (condition increment : Option Expr)
    (body : Stmt) :
    (desugarFor initializer condition increment body).mapTokens f =
      desugarFor (initializer.map (Stmt.mapTokens f)) (condition.map (Expr.mapTokens f))
        (increment.map (Expr.mapTokens f)) (body.mapTokens f) := by
  cases initializer <;> cases condition <;> cases increment <;> rfl

theorem mapTokens_join (layer : Layer) (left : Expr) (operator : Token) (right : Expr) :
    (layer.join left operator right).mapTokens f =
      layer.join (left.mapTokens f) (f operator) (right.mapTokens f) := by
  rw [Layer.join, Layer.join]
  split <;> rfl

theorem Derives.map {nearest : Bool} (hkind : ∀ token, (f token).kind = token.kind)
    {phrase : Phrase} {tokens : List Token} {tree : phrase.Tree}
    (h : Derives nearest phrase tokens tree) :
    Derives nearest phrase (tokens.map f) (phrase.mapTokens f tree) := by
  have hcategory {token : Token} {category : Category} (h : token.category = category) :
      (f token).category = category := by
    rw [← h, Token.category, Token.category, hkind]
  induction h with
  | noDeclarations => exact .noDeclarations
  | moreDeclarations _ _ ih ih' =>
      rw [List.map_append]
      exact .moreDeclarations ih ih'
  | classDeclaration _ ih => exact .classDeclaration ih
  | functionDeclaration hkeyword _ ih => exact .functionDeclaration (hcategory hkeyword) ih
  | variableDeclaration _ ih => exact .variableDeclaration ih
  | statement _ ih => exact .statement ih
  | class_ hkeyword hname hleft _ hright ih =>
      rw [List.map_cons, List.map_cons, List.map_cons, List.map_append]
      exact .class_ (hcategory hkeyword) (hcategory hname) (hcategory hleft) ih (hcategory hright)
  | subclass hkeyword hname hless hsuperclass hleft _ hright ih =>
      rw [List.map_cons, List.map_cons, List.map_cons, List.map_cons, List.map_cons,
        List.map_append]
      exact .subclass (hcategory hkeyword) (hcategory hname) (hcategory hless)
        (hcategory hsuperclass) (hcategory hleft) ih (hcategory hright)
  | noFunctions => exact .noFunctions
  | moreFunctions _ _ ih ih' =>
      rw [List.map_append]
      exact .moreFunctions ih ih'
  | function hname hleft _ hright _ ih ih' =>
      rw [List.map_cons, List.map_cons, List.map_append]
      exact .function (hcategory hname) (hcategory hleft) ih (hcategory hright) ih'
  | noParameters => exact .noParameters
  | someParameters _ hlength ih => exact .someParameters ih (by simpa [Phrase.mapTokens] using hlength)
  | lastParameter hname => exact .lastParameter (hcategory hname)
  | moreParameters hname hcomma _ ih =>
      exact .moreParameters (hcategory hname) (hcategory hcomma) ih
  | variable_ hkeyword hname hsemicolon =>
      exact .variable_ (hcategory hkeyword) (hcategory hname) (hcategory hsemicolon)
  | initializedVariable hkeyword hname hequal _ hsemicolon ih =>
      rw [List.map_cons, List.map_cons, List.map_cons, List.map_append]
      exact .initializedVariable (hcategory hkeyword) (hcategory hname) (hcategory hequal) ih
        (hcategory hsemicolon)
  | block hleft _ hright ih =>
      rw [List.map_cons, List.map_append]
      exact .block (hcategory hleft) ih (hcategory hright)
  | expressionStatement _ hsemicolon ih =>
      rw [List.map_append]
      exact .expressionStatement ih (hcategory hsemicolon)
  | print hkeyword _ hsemicolon ih =>
      rw [List.map_cons, List.map_append]
      exact .print (hcategory hkeyword) ih (hcategory hsemicolon)
  | return_ hkeyword _ hsemicolon ih =>
      rw [List.map_cons, List.map_append]
      exact .return_ (hcategory hkeyword) ih (hcategory hsemicolon)
  | blockStatement _ ih => exact .blockStatement ih
  | ifThen hkeyword hleft _ hright _ ih ih' =>
      rw [List.map_cons, List.map_cons, List.map_append]
      exact .ifThen (hcategory hkeyword) (hcategory hleft) ih (hcategory hright) ih'
  | ifElse hkeyword hleft _ hright _ hopen helse _ ih ih' ih'' =>
      rw [List.map_cons, List.map_cons, List.map_append, List.map_cons, List.map_append]
      exact .ifElse (hcategory hkeyword) (hcategory hleft) ih (hcategory hright) ih' hopen
        (hcategory helse) ih''
  | while_ hkeyword hleft _ hright _ ih ih' =>
      rw [List.map_cons, List.map_cons, List.map_append]
      exact .while_ (hcategory hkeyword) (hcategory hleft) ih (hcategory hright) ih'
  | for_ hkeyword hleft _ _ hsemicolon _ hright _ ih ih' ih'' ih''' =>
      rw [List.map_cons, List.map_cons, List.map_append, List.map_append, List.map_cons,
        List.map_append, Phrase.mapTokens, mapTokens_desugarFor]
      exact .for_ (hcategory hkeyword) (hcategory hleft) ih ih' (hcategory hsemicolon) ih''
        (hcategory hright) ih'''
  | noInitializer hsemicolon => exact .noInitializer (hcategory hsemicolon)
  | variableInitializer _ ih => exact .variableInitializer ih
  | expressionInitializer _ hsemicolon ih =>
      rw [List.map_append]
      exact .expressionInitializer ih (hcategory hsemicolon)
  | noExpression => exact .noExpression
  | someExpression _ ih => exact .someExpression ih
  | assign hname hequal _ ih => exact .assign (hcategory hname) (hcategory hequal) ih
  | set _ hdot hname hequal _ ih ih' =>
      rw [List.map_append]
      exact .set ih (hcategory hdot) (hcategory hname) (hcategory hequal) ih'
  | tighter hinner _ ih => exact .tighter hinner ih
  | infix_ hinner hoperator _ _ ih ih' =>
      rw [List.map_append, Phrase.mapTokens, mapTokens_join]
      exact .infix_ hinner (by rwa [hcategory rfl]) ih ih'
  | unary hoperator _ ih =>
      exact .unary (hoperator.imp hcategory hcategory) ih
  | call _ hleft _ hright ih ih' =>
      rw [List.map_append, List.map_cons, List.map_append]
      exact .call ih (hcategory hleft) ih' (hcategory hright)
  | property _ hdot hname ih =>
      rw [List.map_append]
      exact .property ih (hcategory hdot) (hcategory hname)
  | noArguments => exact .noArguments
  | someArguments _ hlength ih =>
      exact .someArguments ih (by rwa [Phrase.mapTokens, Expr.length_mapTokensAll])
  | lastArgument _ ih => exact .lastArgument ih
  | moreArguments _ hcomma _ ih ih' =>
      rw [List.map_append]
      exact .moreArguments ih (hcategory hcomma) ih'
  | number hvalue => exact .number ((hkind _).trans hvalue)
  | string hcontents => exact .string ((hkind _).trans hcontents)
  | true_ htrue => exact .true_ ((hkind _).trans htrue)
  | false_ hfalse => exact .false_ ((hkind _).trans hfalse)
  | nil_ hnil => exact .nil_ ((hkind _).trans hnil)
  | this_ hkeyword => exact .this_ (hcategory hkeyword)
  | name hname => exact .name (hcategory hname)
  | grouping hleft _ hright ih =>
      rw [List.map_cons, List.map_append]
      exact .grouping (hcategory hleft) ih (hcategory hright)
  | super_ hkeyword hdot hmethod =>
      exact .super_ (hcategory hkeyword) (hcategory hdot) (hcategory hmethod)

/-- Declarations may follow declarations. -/
theorem Derives.append {nearest : Bool} {tokens more : List Token} {trees below : List Stmt}
    (h : Derives nearest .declarations tokens trees)
    (hbelow : Derives nearest .declarations more below) :
    Derives nearest .declarations (tokens ++ more) (trees ++ below) := by
  cases h with
  | noDeclarations => exact hbelow
  | moreDeclarations hfirst hrest =>
      rw [List.append_assoc]
      exact .moreDeclarations hfirst (hrest.append hbelow)

/-! ## Parsing -/

/-- Two programs, the tokens of the second replaced, are read one after the other from the tokens of
both. -/
theorem parse_append (hkind : ∀ token, (f token).kind = token.kind)
    {tokens above below : List Token} {first second : NodeId}
    (htokens : tokens.takeWhile (·.category ≠ .eof) = above.takeWhile (·.category ≠ .eof) ++
      (below.takeWhile (·.category ≠ .eof)).map f)
    (habove : (parse above first).errors = []) (hbelow : (parse below second).errors = [])
    (nextId : NodeId) :
    (parse tokens nextId).errors = [] ∧
      Stmt.eraseAll (parse tokens nextId).statements =
        Stmt.eraseAll (parse above first).statements ++
          Stmt.mapTokensAll f (Stmt.eraseAll (parse below second).statements) := by
  refine parse_of_derives ?_ nextId
  rw [htokens]
  exact (parse_derives habove).append ((parse_derives hbelow).map hkind)

end Lox.Grammar
