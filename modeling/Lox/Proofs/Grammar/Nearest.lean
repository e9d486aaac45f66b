import Lox.Proofs.Grammar.Derivation

/-!
# Each `else` can be attached to the nearest `if`

The grammar leaves open which `if` an `else` belongs to. Attaching each one to the nearest `if`
that is still open derives the same token lists, only with other trees.
-/

namespace Lox.Grammar

/-- An `else` after a statement that ends with an open `if` can be attached inside of it. -/
theorem Derives.attach {phrase : Phrase} {tokens : List Token} {tree : phrase.Tree}
    (h : Derives true phrase tokens tree) (hphrase : phrase = .statement true)
    {else_ : Token} (helse : else_.category = .keyword .else_) {second : List Token}
    {elseBranch : Stmt} {dangling : Bool}
    (hsecond : Derives true (.statement dangling) second elseBranch) :
    ∃ (dangling : Bool) (attached : Stmt),
      Derives true (.statement dangling) (tokens ++ else_ :: second) attached := by
  induction h with
  | @ifThen keyword left right test branch condition thenBranch open_ hkeyword hleft htest hright
      hbranch _ ih =>
      cases open_ with
      | true =>
          obtain ⟨dangling, attached, hattached⟩ := ih rfl
          exact ⟨true, _, by simpa using .ifThen hkeyword hleft htest hright hattached⟩
      | false =>
          exact ⟨dangling, _, by
            simpa using .ifElse hkeyword hleft htest hright hbranch (fun _ => rfl) helse hsecond⟩
  | ifElse hkeyword hleft htest hright hfirst hopen hmiddle _ _ _ ih =>
      obtain ⟨dangling, attached, hattached⟩ := ih hphrase
      exact ⟨dangling, _, by
        simpa using .ifElse hkeyword hleft htest hright hfirst hopen hmiddle hattached⟩
  | while_ hkeyword hleft htest hright _ _ ih =>
      obtain ⟨dangling, attached, hattached⟩ := ih hphrase
      exact ⟨dangling, _, by simpa using .while_ hkeyword hleft htest hright hattached⟩
  | for_ hkeyword hleft hfirst htest hsemicolon hstep hright _ _ _ _ ih =>
      obtain ⟨dangling, attached, hattached⟩ := ih hphrase
      exact ⟨dangling, _, by
        simpa using .for_ hkeyword hleft hfirst htest hsemicolon hstep hright hattached⟩
  | _ => cases hphrase

/-- A phrase that can be derived with every `else` at the nearest `if`: an expression or a list of
names with the same tree, anything that may hold statements with some tree. -/
def DerivesNearest : (phrase : Phrase) → List Token → phrase.Tree → Prop
  | .statement _, tokens, _ => ∃ (dangling : Bool) (tree : Stmt),
      Derives true (.statement dangling) tokens tree
  | .declarations, tokens, _ => ∃ trees, Derives true .declarations tokens trees
  | .declaration, tokens, _ => ∃ tree, Derives true .declaration tokens tree
  | .classDeclaration, tokens, _ => ∃ tree, Derives true .classDeclaration tokens tree
  | .functions, tokens, _ => ∃ trees, Derives true .functions tokens trees
  | .function, tokens, _ => ∃ tree, Derives true .function tokens tree
  | .block, tokens, _ => ∃ trees, Derives true .block tokens trees
  | phrase, tokens, tree => Derives true phrase tokens tree

/-- Whatever the grammar derives, it derives with every `else` at the nearest `if`. -/
theorem Derives.nearest {phrase : Phrase} {tokens : List Token} {tree : phrase.Tree}
    (h : Derives false phrase tokens tree) : DerivesNearest phrase tokens tree := by
  induction h with
  | noDeclarations => exact ⟨_, .noDeclarations⟩
  | moreDeclarations _ _ ihFirst ihRest =>
      obtain ⟨_, hfirst⟩ := ihFirst
      obtain ⟨_, hrest⟩ := ihRest
      exact ⟨_, .moreDeclarations hfirst hrest⟩
  | classDeclaration _ ih =>
      obtain ⟨_, h⟩ := ih
      exact ⟨_, .classDeclaration h⟩
  | functionDeclaration hkeyword _ ih =>
      obtain ⟨_, h⟩ := ih
      exact ⟨_, .functionDeclaration hkeyword h⟩
  | variableDeclaration _ ih => exact ⟨_, .variableDeclaration ih⟩
  | statement _ ih =>
      obtain ⟨_, _, h⟩ := ih
      exact ⟨_, .statement h⟩
  | class_ hkeyword hname hleft _ hright ih =>
      obtain ⟨_, h⟩ := ih
      exact ⟨_, .class_ hkeyword hname hleft h hright⟩
  | subclass hkeyword hname hless hsuperclass hleft _ hright ih =>
      obtain ⟨_, h⟩ := ih
      exact ⟨_, .subclass hkeyword hname hless hsuperclass hleft h hright⟩
  | noFunctions => exact ⟨_, .noFunctions⟩
  | moreFunctions _ _ ihFirst ihRest =>
      obtain ⟨_, hfirst⟩ := ihFirst
      obtain ⟨_, hrest⟩ := ihRest
      exact ⟨_, .moreFunctions hfirst hrest⟩
  | function hname hleft _ hright _ ihParameters ihBody =>
      obtain ⟨_, hbody⟩ := ihBody
      exact ⟨_, .function hname hleft ihParameters hright hbody⟩
  | block hleft _ hright ih =>
      obtain ⟨_, h⟩ := ih
      exact ⟨_, .block hleft h hright⟩
  | expressionStatement _ hsemicolon ih => exact ⟨_, _, .expressionStatement ih hsemicolon⟩
  | print hkeyword _ hsemicolon ih => exact ⟨_, _, .print hkeyword ih hsemicolon⟩
  | return_ hkeyword _ hsemicolon ih => exact ⟨_, _, .return_ hkeyword ih hsemicolon⟩
  | blockStatement _ ih =>
      obtain ⟨_, h⟩ := ih
      exact ⟨_, _, .blockStatement h⟩
  | ifThen hkeyword hleft _ hright _ ihTest ihBranch =>
      obtain ⟨_, _, hbranch⟩ := ihBranch
      exact ⟨_, _, .ifThen hkeyword hleft ihTest hright hbranch⟩
  | ifElse hkeyword hleft _ hright _ _ helse _ ihTest ihFirst ihSecond =>
      obtain ⟨dangling, _, hfirst⟩ := ihFirst
      obtain ⟨_, _, hsecond⟩ := ihSecond
      cases dangling with
      | false =>
          exact ⟨_, _, .ifElse hkeyword hleft ihTest hright hfirst (fun _ => rfl) helse hsecond⟩
      | true =>
          -- the `else` moves into the branch before it
          obtain ⟨_, _, hattached⟩ := hfirst.attach rfl helse hsecond
          exact ⟨_, _, .ifThen hkeyword hleft ihTest hright hattached⟩
  | while_ hkeyword hleft _ hright _ ihTest ihBody =>
      obtain ⟨_, _, hbody⟩ := ihBody
      exact ⟨_, _, .while_ hkeyword hleft ihTest hright hbody⟩
  | for_ hkeyword hleft _ _ hsemicolon _ hright _ ihFirst ihTest ihStep ihBody =>
      obtain ⟨_, _, hbody⟩ := ihBody
      exact ⟨_, _, .for_ hkeyword hleft ihFirst ihTest hsemicolon ihStep hright hbody⟩
  | noParameters => exact .noParameters
  | someParameters _ hlength ih => exact .someParameters ih hlength
  | lastParameter hname => exact .lastParameter hname
  | moreParameters hname hcomma _ ih => exact .moreParameters hname hcomma ih
  | variable_ hkeyword hname hsemicolon => exact .variable_ hkeyword hname hsemicolon
  | initializedVariable hkeyword hname hequal _ hsemicolon ih =>
      exact .initializedVariable hkeyword hname hequal ih hsemicolon
  | noInitializer hsemicolon => exact .noInitializer hsemicolon
  | variableInitializer _ ih => exact .variableInitializer ih
  | expressionInitializer _ hsemicolon ih => exact .expressionInitializer ih hsemicolon
  | noExpression => exact .noExpression
  | someExpression _ ih => exact .someExpression ih
  | assign hname hequal _ ih => exact .assign hname hequal ih
  | set _ hdot hname hequal _ ihObject ihValue => exact .set ihObject hdot hname hequal ihValue
  | tighter hinner _ ih => exact .tighter hinner ih
  | infix_ hinner hoperator _ _ ihLeft ihRight => exact .infix_ hinner hoperator ihLeft ihRight
  | unary hoperator _ ih => exact .unary hoperator ih
  | call _ hleft _ hright ihCallee ihArguments => exact .call ihCallee hleft ihArguments hright
  | property _ hdot hname ih => exact .property ih hdot hname
  | noArguments => exact .noArguments
  | someArguments _ hlength ih => exact .someArguments ih hlength
  | lastArgument _ ih => exact .lastArgument ih
  | moreArguments _ hcomma _ ihFirst ihRest => exact .moreArguments ihFirst hcomma ihRest
  | number hkind => exact .number hkind
  | string hkind => exact .string hkind
  | true_ hkind => exact .true_ hkind
  | false_ hkind => exact .false_ hkind
  | nil_ hkind => exact .nil_ hkind
  | this_ hkeyword => exact .this_ hkeyword
  | name hname => exact .name hname
  | grouping hleft _ hright ih => exact .grouping hleft ih hright
  | super_ hkeyword hdot hmethod => exact .super_ hkeyword hdot hmethod

/-- Attaching each `else` to the nearest `if` is one of the ways to read a phrase. -/
theorem Derives.ambiguous {phrase : Phrase} {tokens : List Token} {tree : phrase.Tree}
    (h : Derives true phrase tokens tree) : Derives false phrase tokens tree := by
  induction h with
  | ifElse hkeyword hleft _ hright _ _ helse _ ihTest ihFirst ihSecond =>
      exact .ifElse hkeyword hleft ihTest hright ihFirst nofun helse ihSecond
  | _ => grind [Derives]

end Lox.Grammar
