import Lox.Proofs.Grammar.First
import Lox.Proofs.Grammar.Giving
import Lox.Proofs.Grammar.Level
import Lox.Proofs.Syntax.Erasure

/-!
# How expressions are read

A phrase at the front of the tokens is read by its rule, with its tree and without an error, if
what follows cannot be taken for a part of it. An operand or a callee is followed by what does
belong to the expression, so for these the statement says where the rule goes on instead.
-/

namespace Lox.Grammar

variable {setting : Setting} {before after : State} {rest tail : List Token}

/-! ## What may follow -/

/-- The token after a whole expression: a semicolon, a closing parenthesis or a comma. -/
def Closes (rest : List Token) : Prop :=
  nextOf rest = some (.symbol .semicolon) ∨ nextOf rest = some (.symbol .rightParen) ∨
    nextOf rest = some (.symbol .comma)

/-- Neither arguments nor a property follow. -/
def NoSuffix (rest : List Token) : Prop :=
  nextOf rest ≠ some (.symbol .leftParen) ∧ nextOf rest ≠ some (.symbol .dot)

theorem Closes.noSuffix (h : Closes rest) : NoSuffix rest := by
  rcases h with h | h | h <;> simp [NoSuffix, h]

theorem Closes.looser (h : Closes rest) (level : Nat) : Looser level rest := by
  rcases h with h | h | h <;> simp [Looser, h, infixLevel]

theorem Closes.not_equal (h : Closes rest) : nextOf rest ≠ some (.symbol .equal) := by
  rcases h with h | h | h <;> simp [h]

/-- Operands joined by operators of at most a level are at the front of the tokens. Reading them
comes down to reading on after them, with the operators that bind looser still to come. -/
def ReadsOperation (setting : Setting) (level : Nat) (tokens : List Token) (tree : Expr) : Prop :=
  ∀ before rest, before.rest = tokens ++ rest → NoSuffix rest → Looser (level + 1) rest →
    ∃ left middle,
      (∀ low, low ≤ level →
        result (Rule.read (.operation low)) setting before =
          result (Rule.read (.operators low left)) setting middle) ∧
      middle.rest = rest ∧ middle.errors = before.errors ∧ left.erase = tree

/-- A call is at the front of the tokens. Reading it comes down to reading on after it. -/
def ReadsCall (setting : Setting) (tokens : List Token) (tree : Expr) : Prop :=
  ∀ before rest, before.rest = tokens ++ rest → ∃ left middle,
    result (Rule.read .call) setting before =
      result (Rule.read (.suffixes left)) setting middle ∧
    middle.rest = rest ∧ middle.errors = before.errors ∧ left.erase = tree

/-- How an expression of a layer at the front of the tokens is read. -/
def ReadsExpression (setting : Setting) (layer : Layer) (tokens : List Token) (tree : Expr) :
    Prop :=
  match layer with
  | .assignment => ∀ before rest, before.rest = tokens ++ rest → Closes rest →
      Gives (Rule.read .expression) setting before rest (·.erase = tree)
  | .unary => ∀ before rest, before.rest = tokens ++ rest → NoSuffix rest →
      Gives (Rule.read .unary) setting before rest (·.erase = tree)
  | .call => ReadsCall setting tokens tree
  | .primary => ∀ before rest, before.rest = tokens ++ rest →
      Gives (Rule.read .primary) setting before rest (·.erase = tree)
  | layer => ReadsOperation setting layer.level tokens tree

section

variable (hending : setting.ending.category = .eof) {tokens : List Token} {tree : Expr}

include hending

/-! ### Calls -/

/-- Without arguments or a property to follow, a call is complete. -/
theorem suffixes_stop (left : Expr) (h : NoSuffix before.rest) :
    result (Rule.read (.suffixes left)) setting before = .ok left before := by
  have hparen : before.next? ≠ some (.symbol .leftParen) := h.1
  have hdot : before.next? ≠ some (.symbol .dot) := h.2
  rw [Rule.read_eq hending]
  change result (suffixes Rule.read left) setting before = _
  rw [suffixes, accepts_ite_of_not hparen, accepts_ite_of_not hdot, result_pure]

theorem call_of_primary (h : ReadsExpression setting .primary tokens tree) :
    ReadsCall setting tokens tree := by
  intro before rest hrest
  obtain ⟨left, middle, hresult, hmiddle, herrors, herase⟩ := h before rest hrest
  refine ⟨left, middle, ?_, hmiddle, herrors, herase⟩
  rw [Rule.read_eq hending]
  exact bind_of_ok hresult

theorem call_property {dot name : Token} (h : ReadsCall setting tokens tree)
    (hdot : dot.category = .symbol .dot) (hname : name.category = .identifier) :
    ReadsCall setting (tokens ++ [dot, name]) (.get 0 tree name) := by
  intro before rest hrest
  obtain ⟨left, middle, hresult, hmiddle, herrors, rfl⟩ :=
    h before (dot :: name :: rest) (by simpa using hrest)
  have hfirst : middle.next? = some (.symbol .dot) := by simp [State.next?, hmiddle, hdot]
  have hsecond : middle.skipped.next? = some .identifier := by
    simp [State.next?, hmiddle, hname]
  refine ⟨.get middle.skipped.skipped.nextId left name, middle.skipped.skipped.renewed, ?_,
    by simp [hmiddle], by simpa using herrors, rfl⟩
  rw [hresult, Rule.read_eq hending]
  change result (suffixes Rule.read left) setting middle = _
  rw [suffixes, accepts_ite_of_not (by simp [hfirst]), accepts_ite_of_next hfirst, expectName,
    bind_of_ok (result_expect_of_next hsecond _), bind_of_ok result_freshId]
  have htoken : middle.skipped.rest.head?.getD setting.ending = name := by simp [hmiddle]
  rw [htoken]

theorem call_arguments {left right : Token} {inner : List Token} {trees : List Expr}
    (h : ReadsCall setting tokens tree) (hleft : left.category = .symbol .leftParen)
    (harguments : ∀ before rest, before.rest = inner ++ rest →
      nextOf rest = some (.symbol .rightParen) →
        Gives (argumentList Rule.read) setting before rest (Expr.eraseAll · = trees))
    (hright : right.category = .symbol .rightParen) :
    ReadsCall setting (tokens ++ left :: (inner ++ [right])) (.call 0 tree right trees) := by
  intro before rest hrest
  obtain ⟨callee, middle, hresult, hmiddle, herrors, rfl⟩ :=
    h before (left :: (inner ++ right :: rest)) (by simpa using hrest)
  have hnext : middle.next? = some (.symbol .leftParen) := by simp [State.next?, hmiddle, hleft]
  obtain ⟨arguments, last, hlist, hlast, herrors', rfl⟩ :=
    harguments middle.skipped (right :: rest) (by simp [hmiddle]) (by simp [hright])
  have hclose : last.next? = some (.symbol .rightParen) := by simp [State.next?, hlast, hright]
  refine ⟨.call last.skipped.nextId callee right arguments, last.skipped.renewed, ?_, by simp [hlast],
    by simpa [herrors'] using herrors, rfl⟩
  rw [hresult, Rule.read_eq hending]
  change result (suffixes Rule.read callee) setting middle = _
  rw [suffixes, accepts_ite_of_next hnext, bind_of_ok hlist, expectSymbol,
    bind_of_ok (result_expect_of_next hclose _), bind_of_ok result_freshId]
  have htoken : last.rest.head?.getD setting.ending = right := by simp [hlast]
  rw [htoken]

theorem unary_of_call
    (hbegins : ∃ token more, tokens = token :: more ∧ beginsPrimary token.category = true)
    (h : ReadsCall setting tokens tree) : ReadsExpression setting .unary tokens tree := by
  intro before rest hrest hno
  obtain ⟨left, middle, hresult, hmiddle, herrors, herase⟩ := h before rest hrest
  have hcall : Gives (Rule.read .call) setting before rest (·.erase = tree) :=
    ⟨left, middle, hresult.trans (suffixes_stop hending left (by rwa [hmiddle])), hmiddle, herrors,
      herase⟩
  obtain ⟨token, more, rfl, hfirst⟩ := hbegins
  have hnext : before.next? = some token.category := by simp [State.next?, hrest]
  have hbang : token.category ≠ .symbol .bang := fun h => by simp [h, beginsPrimary] at hfirst
  have hminus : token.category ≠ .symbol .minus := fun h => by simp [h, beginsPrimary] at hfirst
  refine Gives.read hending (Gives.of_eq ?_ rfl hcall)
  change result (unary Rule.read) setting before = _
  rw [unary, bind_of_ok result_peek, bind_of_ok (result_sees _), bind_of_ok (result_sees _)]
  simp [hnext, hbang, hminus]

theorem unary_sign {operator : Token}
    (hoperator : operator.category = .symbol .bang ∨ operator.category = .symbol .minus)
    (h : ReadsExpression setting .unary tokens tree) :
    ReadsExpression setting .unary (operator :: tokens) (.unary 0 operator tree) := by
  intro before rest hrest hno
  have hnext : before.next? = some operator.category := by simp [State.next?, hrest]
  have hunary : Gives (do
      skip
      let operand : Expr ← Rule.read .unary
      return Expr.unary (← freshId) operator operand) setting before rest
      (Expr.erase · = .unary 0 operator tree) := by
    refine Gives.skip_bind hrest fun first hfirst => ?_
    refine (h first rest hfirst hno).bind fun operand second hoperand hsecond => ?_
    exact Gives.freshId_bind fun id third hthird =>
      Gives.pure (hthird.trans hsecond) (by simp [Expr.erase, hoperand])
  refine Gives.read hending (Gives.of_eq ?_ rfl hunary)
  change result (unary Rule.read) setting before = _
  rw [unary, bind_of_ok result_peek, bind_of_ok (result_sees _), bind_of_ok (result_sees _)]
  rcases hoperator with h | h <;> simp [hnext, h, hrest]

/-! ### Operators -/

/-- Without an operator of at least the level to follow, an operation is complete. -/
theorem operators_stop {level : Nat} (left : Expr) (h : Looser level before.rest) :
    result (Rule.read (.operators level left)) setting before = .ok left before := by
  rw [Rule.read_eq hending]
  change result (operators Rule.read level left) setting before = _
  rw [operators, bind_of_ok result_peek, infixLevel_peek hending before.rest]
  cases hlevel : (nextOf before.rest).bind infixLevel with
  | none => rfl
  | some tightness => simp [h tightness hlevel, result_pure]

theorem operation_of_unary (level : Nat) (h : ReadsExpression setting .unary tokens tree) :
    ReadsOperation setting level tokens tree := by
  intro before rest hrest hno _
  obtain ⟨left, middle, hresult, hmiddle, herrors, herase⟩ := h before rest hrest hno
  refine ⟨left, middle, fun level _ => ?_, hmiddle, herrors, herase⟩
  rw [Rule.read_eq hending]
  exact bind_of_ok hresult

omit hending in
theorem ReadsOperation.looser {level : Nat} (h : ReadsOperation setting (level + 1) tokens tree) :
    ReadsOperation setting level tokens tree := by
  intro before rest hrest hno hlooser
  obtain ⟨left, middle, hresult, hmiddle⟩ :=
    h before rest hrest hno fun tightness htight => Nat.lt_succ_of_lt (hlooser tightness htight)
  exact ⟨left, middle, fun low hlow => hresult low (Nat.le_succ_of_le hlow), hmiddle⟩

/-- An operation that nothing of its level follows is read by its rule. -/
theorem ReadsOperation.gives {level : Nat} (h : ReadsOperation setting level tokens tree)
    (hrest : before.rest = tokens ++ rest) (hno : NoSuffix rest) (hlooser : Looser level rest) :
    Gives (Rule.read (.operation level)) setting before rest (·.erase = tree) := by
  obtain ⟨left, middle, hresult, hmiddle, herrors, herase⟩ :=
    h before rest hrest hno fun tightness htight => Nat.lt_succ_of_lt (hlooser tightness htight)
  refine ⟨left, middle, ?_, hmiddle, herrors, herase⟩
  rw [hresult level (Nat.le_refl _)]
  exact operators_stop hending left (by rwa [hmiddle])

/-- The tree of two operands with an operator between them. -/
def joined (id : NodeId) (left : Expr) (operator : Token) (right : Expr) : Expr :=
  match operator.category with
  | .keyword _ => .logical id left operator right
  | _ => .binary id left operator right

/-- An operator of the layer joins what is to its left with a tighter right operand. -/
theorem operation_join {layer : Layer} {operator : Token} {second : List Token} {right : Expr}
    (hoperator : operator.category ∈ layer.operators)
    (hleft : ReadsOperation setting layer.level tokens tree)
    (hright : ReadsOperation setting (layer.level + 1) second right) :
    ReadsOperation setting layer.level (tokens ++ operator :: second)
      (layer.join tree operator right) := by
  intro before rest hrest hno hlooser
  have hlevel := infixLevel_of_mem_operators hoperator
  have hsuffix : NoSuffix (operator :: (second ++ rest)) := by
    constructor <;> intro h <;> simp only [nextOf_cons, Option.some.injEq] at h <;>
      simp [h, infixLevel] at hlevel
  have hnext : Looser (layer.level + 1) (operator :: (second ++ rest)) := by
    intro tightness htight
    simp only [nextOf_cons, Option.bind_some, hlevel, Option.some.injEq] at htight
    omega
  obtain ⟨left, middle, hresult, hmiddle, herrors, rfl⟩ :=
    hleft before (operator :: (second ++ rest)) (by simpa using hrest) hsuffix hnext
  have hskipped : middle.skipped.rest = second ++ rest := by simp [hmiddle]
  obtain ⟨operand, last, hoperand, hlast, herrors', rfl⟩ :=
    hright.gives hending hskipped hno hlooser
  have hpeek : middle.rest.head?.getD setting.ending = operator := by simp [hmiddle]
  obtain ⟨joined, hjoined, hread⟩ : ∃ joined : Expr,
      joined.erase = layer.join left.erase operator operand.erase ∧
        ∀ low, low ≤ layer.level →
          result (Rule.read (.operators low left)) setting middle =
            result (Rule.read (.operators low joined)) setting last.renewed := by
    have hjoin := Layer.join_ofLevel hlevel left.erase operand.erase
    rw [Layer.ofLevel_level hoperator] at hjoin
    have hstep : ∀ low, low ≤ layer.level →
        result (Rule.read (.operators low left)) setting middle =
          result (Rule.read (.operators low (joined last.nextId left operator operand)))
            setting last.renewed := by
      intro low hlow
      rw [Rule.read_eq hending]
      change result (operators Rule.read low left) setting middle = _
      rw [operators, bind_of_ok result_peek, hpeek, hlevel]
      simp only [Nat.not_lt_of_le hlow, if_false]
      rw [bind_of_ok result_skip, bind_of_ok hoperand]
      refine (bind_of_ok result_freshId).trans ?_
      unfold joined
      cases operator.category <;> rfl
    refine ⟨joined last.nextId left operator operand, ?_, hstep⟩
    refine Eq.trans ?_ hjoin.symm
    unfold joined
    cases operator.category <;> rfl
  refine ⟨joined, last.renewed, fun low hlow => ?_, hlast, ?_, hjoined⟩
  · rw [hresult low hlow, hread low hlow]
  · rw [State.renewed_errors, herrors', State.skipped_errors, herrors]

/-! ### Assignments -/

/-- An expression that no equals sign follows is an operation of the loosest level. -/
theorem assignment_of_operation (h : ReadsOperation setting loosest tokens tree) :
    ReadsExpression setting .assignment tokens tree := by
  intro before rest hrest hcloses
  refine Gives.read hending ?_
  refine (h.gives hending hrest hcloses.noSuffix (hcloses.looser _)).bind
    fun target middle htarget hmiddle => ?_
  refine Gives.of_eq (bind_of_ok (result_faultHere _)) rfl ?_
  refine Gives.accepts_no (by rw [hmiddle]; exact hcloses.not_equal) ?_
  exact Gives.pure hmiddle htarget

/-- An assignment: a target that is read, an equals sign and a value. -/
theorem assignment_of_target {equal : Token} {second : List Token} {value assigned : Expr}
    (hequal : equal.category = .symbol .equal)
    (htarget : ReadsOperation setting loosest tokens tree)
    (hvalue : ReadsExpression setting .assignment second value)
    (hassigned : (∃ name, tree = .var 0 name ∧ assigned = .assign 0 name value) ∨
      ∃ object name, tree = .get 0 object name ∧ assigned = .set 0 object name value) :
    ReadsExpression setting .assignment (tokens ++ equal :: second) assigned := by
  intro before rest hrest hcloses
  have hno : NoSuffix (equal :: (second ++ rest)) := by simp [NoSuffix, hequal]
  have hlooser : Looser loosest (equal :: (second ++ rest)) := by
    simp [Looser, hequal, infixLevel]
  refine Gives.read hending ?_
  refine (htarget.gives hending (by simpa using hrest) hno hlooser).bind
    fun target first htree hfirst => ?_
  refine Gives.of_eq (bind_of_ok (result_faultHere _)) rfl ?_
  refine Gives.accepts_yes hfirst hequal fun second hsecond => ?_
  refine (hvalue second rest hsecond hcloses).bind fun read third hread hthird => ?_
  rcases hassigned with ⟨name, rfl, rfl⟩ | ⟨object, name, rfl, rfl⟩
  · cases target <;> simp only [Expr.erase, reduceCtorEq, Expr.var.injEq, true_and] at htree
    subst htree
    exact Gives.freshId_bind fun id last hlast =>
      Gives.pure (hlast.trans hthird) (by simp [Expr.erase, hread])
  · cases target <;> simp only [Expr.erase, reduceCtorEq, Expr.get.injEq, true_and] at htree
    obtain ⟨rfl, rfl⟩ := htree
    exact Gives.freshId_bind fun id last hlast =>
      Gives.pure (hlast.trans hthird) (by simp [Expr.erase, hread])

/-- A call is an operation of any level. -/
theorem operation_of_call (level : Nat)
    (hbegins : ∃ token more, tokens = token :: more ∧ beginsPrimary token.category = true)
    (h : ReadsCall setting tokens tree) : ReadsOperation setting level tokens tree :=
  operation_of_unary hending level (unary_of_call hending hbegins h)

/-- An expression of a tighter layer is read as an expression of the next looser one. -/
theorem readsExpression_of_inner {layer inner : Layer} (hinner : layer.inner = some inner)
    (hbegins : ∃ token more, tokens = token :: more ∧
      (Phrase.expression inner).begins token.category = true)
    (h : ReadsExpression setting inner tokens tree) :
    ReadsExpression setting layer tokens tree := by
  cases layer <;> cases hinner
  case assignment => exact assignment_of_operation hending h
  case factor => exact operation_of_unary hending _ h
  case unary => exact unary_of_call hending hbegins h
  case call => exact call_of_primary hending h
  all_goals exact ReadsOperation.looser h

/-- An infix operator of a layer between its operands. -/
theorem readsExpression_join {layer inner : Layer} (hinner : layer.inner = some inner)
    {operator : Token} {second : List Token} {right : Expr}
    (hoperator : operator.category ∈ layer.operators)
    (hleft : ReadsExpression setting layer tokens tree)
    (hright : ReadsExpression setting inner second right) :
    ReadsExpression setting layer (tokens ++ operator :: second)
      (layer.join tree operator right) := by
  cases layer with
  | assignment | unary | call | primary => cases hoperator
  | factor =>
      cases hinner
      exact operation_join hending hoperator hleft (operation_of_unary hending _ hright)
  | _ =>
      cases hinner
      exact operation_join hending hoperator hleft hright

/-! ### Primary expressions -/

theorem primary_literal {token : Token} {value : Literal}
    (h : literal? token.kind = some value) :
    ReadsExpression setting .primary [token] (.literal 0 value) := by
  intro before rest hrest
  refine Gives.read hending (Gives.peek_bind hrest ?_)
  simp only [h]
  refine Gives.skip_bind hrest fun middle hmiddle => ?_
  exact Gives.freshId_bind fun id last hlast => Gives.pure (hlast.trans hmiddle) rfl

/-- A token that writes no constant is left to what follows in the rule. -/
theorem primary_of_not_literal {token : Token} {more : List Token}
    (hliteral : literal? token.kind = none)
    (h : ∀ before rest, before.rest = token :: (more ++ rest) → Gives (do
      if ← accepts (.keyword .super_) then
        let _ ← expectSymbol .dot (.afterKeyword .super_)
        let method ← expectName .superclassMethod
        return Expr.super_ (← freshId) token method
      else if ← accepts (.keyword .this_) then
        return .this_ (← freshId) token
      else if ← accepts .identifier then
        return .var (← freshId) token
      else if ← accepts (.symbol .leftParen) then
        let inner : Expr ← Rule.read .expression
        let _ ← expectSymbol .rightParen .afterGrouping
        return .grouping (← freshId) inner
      else
        giveUp .expectedExpression) setting before rest (Expr.erase · = tree)) :
    ReadsExpression setting .primary (token :: more) tree := by
  intro before rest hrest
  refine Gives.read hending (Gives.peek_bind hrest ?_)
  simp only [hliteral]
  exact h before rest hrest

omit hending in
theorem literal?_of_category {token : Token} {category : Category}
    (h : token.category = category)
    (hcategory : category = .identifier ∨ category = .keyword .super_ ∨
      category = .keyword .this_ ∨ category = .symbol .leftParen) :
    literal? token.kind = none := by
  unfold Token.category at h
  rcases hcategory with rfl | rfl | rfl | rfl <;>
    cases hkind : token.kind <;> simp_all [Kind.category, literal?]

theorem primary_this {keyword : Token} (h : keyword.category = .keyword .this_) :
    ReadsExpression setting .primary [keyword] (.this_ 0 keyword) := by
  refine primary_of_not_literal hending (literal?_of_category h (by simp)) fun before rest hrest => ?_
  refine Gives.accepts_no (by simp [hrest, h]) (Gives.accepts_yes hrest h fun middle hmiddle => ?_)
  exact Gives.freshId_bind fun id last hlast => Gives.pure (hlast.trans hmiddle) rfl

theorem primary_name {name : Token} (h : name.category = .identifier) :
    ReadsExpression setting .primary [name] (.var 0 name) := by
  refine primary_of_not_literal hending (literal?_of_category h (by simp)) fun before rest hrest => ?_
  refine Gives.accepts_no (by simp [hrest, h]) (Gives.accepts_no (by simp [hrest, h]) ?_)
  refine Gives.accepts_yes hrest h fun middle hmiddle => ?_
  exact Gives.freshId_bind fun id last hlast => Gives.pure (hlast.trans hmiddle) rfl

theorem primary_super {keyword dot method : Token} (hkeyword : keyword.category = .keyword .super_)
    (hdot : dot.category = .symbol .dot) (hmethod : method.category = .identifier) :
    ReadsExpression setting .primary [keyword, dot, method] (.super_ 0 keyword method) := by
  refine primary_of_not_literal hending (literal?_of_category hkeyword (by simp))
    fun before rest hrest => ?_
  refine Gives.accepts_yes hrest hkeyword fun first hfirst => ?_
  refine Gives.expect_bind hfirst hdot fun second hsecond => ?_
  refine Gives.expect_bind hsecond hmethod fun third hthird => ?_
  exact Gives.freshId_bind fun id last hlast => Gives.pure (hlast.trans hthird) rfl

theorem primary_grouping {left right : Token} (hleft : left.category = .symbol .leftParen)
    (h : ReadsExpression setting .assignment tokens tree)
    (hright : right.category = .symbol .rightParen) :
    ReadsExpression setting .primary (left :: (tokens ++ [right])) (.grouping 0 tree) := by
  refine primary_of_not_literal hending (literal?_of_category hleft (by simp))
    fun before rest hrest => ?_
  refine Gives.accepts_no (by simp [hrest, hleft]) (Gives.accepts_no (by simp [hrest, hleft]) ?_)
  refine Gives.accepts_no (by simp [hrest, hleft]) ?_
  refine Gives.accepts_yes hrest hleft fun first hfirst => ?_
  refine (h first (right :: rest) (by simpa using hfirst) (.inr (.inl (by simp [hright])))).bind
    fun inner second hinner hsecond => ?_
  refine Gives.expect_bind hsecond hright fun third hthird => ?_
  exact Gives.freshId_bind fun id last hlast =>
    Gives.pure (hlast.trans hthird) (by simp [Expr.erase, hinner])

end

end Lox.Grammar
