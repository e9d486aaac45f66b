import Lox.Proofs.Grammar.Advance
import Lox.Proofs.Grammar.Level
import Lox.Proofs.Syntax.Erasure

/-!
# What is read without errors is in the grammar

A rule that leaves no error behind has taken the tokens of a phrase off the front, and its tree is
the tree of that phrase. The operators of an expression need to know what is to their left; all
other rules stand by themselves.
-/

namespace Lox.Grammar

variable {setting : Setting} {before after : State}

/-- An expression with operators of at least a level is one with operators of any lower level. -/
theorem Derives.ofLevel_le {nearest : Bool} {low high : Nat} {tokens : List Token} {tree : Expr}
    (hpos : 1 ≤ low) (hle : low ≤ high) (hhigh : high ≤ 7)
    (h : Derives nearest (.expression (Layer.ofLevel high)) tokens tree) :
    Derives nearest (.expression (Layer.ofLevel low)) tokens tree := by
  induction hle with
  | refl => exact h
  | @step high hle ih =>
      have hle : low ≤ high := hle
      have hinner := @Layer.inner_ofLevel high (by omega) (by omega)
      exact ih (by omega) (.tighter hinner h)

/-- A token that writes a constant is a primary expression. -/
theorem Derives.literal {nearest : Bool} {token : Token} {value : Literal}
    (h : literal? token.kind = some value) :
    Derives nearest (.expression .primary) [token] (.literal 0 value) := by
  cases hkind : token.kind with
  | keyword keyword =>
      cases keyword <;> simp [literal?, hkind] at h <;> subst h
      · exact .false_ hkind
      · exact .nil_ hkind
      · exact .true_ hkind
  | string contents =>
      simp only [literal?, hkind, Option.some.injEq] at h
      subst h
      exact .string hkind
  | number number =>
      simp only [literal?, hkind, Option.some.injEq] at h
      subst h
      exact .number hkind
  | _ => simp [literal?, hkind] at h

/-! ## Assignment targets -/

/-- What a phrase is known to be from its tree alone, for the trees that can be assigned to. -/
def Target (nearest : Bool) : (phrase : Phrase) → List Token → phrase.Tree → Prop
  | .expression _, tokens, .var _ name => tokens = [name] ∧ name.category = .identifier
  | .expression _, tokens, .get _ object name => ∃ front dot,
      tokens = front ++ [dot, name] ∧ Derives nearest (.expression .call) front object ∧
        dot.category = .symbol .dot ∧ name.category = .identifier
  | _, _, _ => True

theorem Derives.target {nearest : Bool} {phrase : Phrase} {tokens : List Token}
    {tree : phrase.Tree} (h : Derives nearest phrase tokens tree) :
    Target nearest phrase tokens tree := by
  induction h with
  | name hname => exact ⟨rfl, hname⟩
  | property hobject hdot hname _ => exact ⟨_, _, rfl, hobject, hdot, hname⟩
  | @tighter layer inner tokens tree _ _ ih =>
      cases tree with
      | var id name => exact ih
      | get id object name => exact ih
      | _ => trivial
  | infix_ _ _ _ _ =>
      simp only [Layer.join]
      split <;> trivial
  | _ => trivial

/-! ## What the rules read -/

/-- What a rule has read: tokens taken off the front that make up a phrase, its tree, and what is
known of the token that comes next. -/
def Reading : (rule : Rule) → (before : State) → List Token → rule.Tree → (after : State) → Prop
  | .declarations inBlock, _, tokens, trees, after =>
      Derives true .declarations tokens (Stmt.eraseAll trees) ∧
        (inBlock = false → after.rest = [])
  | .declaration, _, tokens, tree, _ =>
      ∃ statement, tree = some statement ∧ Derives true .declaration tokens statement.erase
  | .statement, _, tokens, tree, after =>
      ∃ dangling, Derives true (.statement dangling) tokens tree.erase ∧
        (dangling = true → after.next? ≠ some (.keyword .else_))
  | .methods, _, tokens, trees, _ =>
      Derives true .functions tokens (FunctionDecl.eraseAll trees)
  | .parameters count, _, tokens, names, _ =>
      Derives true .parameters tokens names ∧ count + names.length ≤ 8
  | .expression, _, tokens, tree, _ => Derives true (.expression .assignment) tokens tree.erase
  | .operation level, _, tokens, tree, after =>
      1 ≤ level → level ≤ 7 →
        Derives true (.expression (Layer.ofLevel level)) tokens tree.erase ∧ Looser level after.rest
  | .operators level left, before, tokens, tree, after =>
      ∀ high front, 1 ≤ level → level ≤ high → high ≤ 7 → Looser (high + 1) before.rest →
        Derives true (.expression (Layer.ofLevel high)) front left.erase →
          Derives true (.expression (Layer.ofLevel level)) (front ++ tokens) tree.erase ∧
            Looser level after.rest
  | .unary, _, tokens, tree, _ => Derives true (.expression .unary) tokens tree.erase
  | .call, _, tokens, tree, _ => Derives true (.expression .call) tokens tree.erase
  | .suffixes left, _, tokens, tree, _ =>
      ∀ front, Derives true (.expression .call) front left.erase →
        Derives true (.expression .call) (front ++ tokens) tree.erase
  | .arguments count, _, tokens, trees, _ =>
      Derives true .arguments tokens (Expr.eraseAll trees) ∧ count + trees.length ≤ 8
  | .primary, _, tokens, tree, _ => Derives true (.expression .primary) tokens tree.erase

/-- Whatever the reader of a rule reads without errors is what the rule describes. -/
def SoundFor (setting : Setting) (sub : Readers) (rule : Rule) : Prop :=
  ∀ before tree after, result (sub rule) setting before = .ok tree after → after.errors = [] →
    ∃ tokens, before.rest = tokens ++ after.rest ∧ Reading rule before tokens tree after

/-- Taking a token that is required. -/
theorem expect_ok {category : Category} {fault : SyntaxFault} {token : Token}
    (h : result (expect category fault) setting before = .ok token after) :
    before.rest = token :: after.rest ∧ token.category = category ∧
      before.errors = after.errors := by
  by_cases hnext : before.next? = some category
  · rw [result_expect_of_next hnext] at h
    obtain ⟨first, rest, hrest, hcategory⟩ := State.next?_eq_some hnext
    cases h
    simp [hrest, hcategory]
  · rw [result_expect_of_not hnext] at h
    cases h

/-- Taking a token of a category and going on with `yes`, or else going on with `no`. -/
theorem accepts_ite_ok {α : Type} {category : Category} {yes no : Parser α} {a : α}
    (h : result (accepts category >>= fun accepted => if accepted = true then yes else no)
      setting before = .ok a after) :
    (∃ token, before.rest = token :: before.skipped.rest ∧ token.category = category ∧
      result yes setting before.skipped = .ok a after) ∨
    (before.next? ≠ some category ∧ result no setting before = .ok a after) := by
  by_cases hnext : before.next? = some category
  · obtain ⟨token, rest, hrest, hcategory⟩ := State.next?_eq_some hnext
    rw [accepts_ite_of_next hnext] at h
    exact .inl ⟨token, by simp [hrest], hcategory, h⟩
  · rw [accepts_ite_of_not hnext] at h
    exact .inr ⟨hnext, h⟩

/-- An entry that leaves no error behind is among the first eight. -/
theorem State.checked_of_errors_eq_nil {state : State} (hlimit : setting.limit = some entryLimit)
    {count : Nat} {fault : Nat → SyntaxFault}
    (h : (state.checked setting count fault).errors = []) :
    count < 8 ∧ state.checked setting count fault = state := by
  by_cases hle : entryLimit ≤ count
  · simp [State.checked, hlimit, hle, State.noted] at h
  · exact ⟨Nat.lt_of_not_le hle, by simp [State.checked, hlimit, hle]⟩

section

variable {sub : Readers} (hsub : ∀ rule, Advances (sub rule))
  (hsound : ∀ rule, SoundFor setting sub rule)

include hsub hsound

/-! ### Expressions -/

theorem expression_sound : SoundFor setting (fun rule => rule.step sub) .expression := by
  intro before tree after h hnil
  obtain ⟨target, first, htarget, h⟩ := bind_eq_ok.mp h
  rw [bind_of_ok (result_faultHere _)] at h
  rcases accepts_ite_ok h with ⟨equal, hequal, hcategory, h⟩ | ⟨-, h⟩
  · obtain ⟨value, second, hvalue, h⟩ := bind_eq_ok.mp h
    have hlast : second.errors = [] ∧ second.rest = after.rest ∧
        ((∃ id name, target = .var id name ∧ tree = .assign second.nextId name value) ∨
          ∃ id object name, target = .get id object name ∧
            tree = .set second.nextId object name value) := by
      cases target with
      | var id name =>
          cases h
          exact ⟨hnil, rfl, .inl ⟨id, name, rfl, rfl⟩⟩
      | get id object name =>
          cases h
          exact ⟨hnil, rfl, .inr ⟨id, object, name, rfl, rfl⟩⟩
      | _ =>
          cases h
          simp at hnil
    obtain ⟨hsecond, hrest, hassigned⟩ := hlast
    have hfirst := ((hsub _).of_ok hvalue).errors_eq_nil hsecond
    rw [State.skipped_errors] at hfirst
    obtain ⟨tokens, htokens, hderives⟩ := hsound .expression _ _ _ hvalue hsecond
    obtain ⟨front, hfront, hread⟩ := hsound (.operation loosest) _ _ _ htarget hfirst
    obtain ⟨hread, -⟩ := hread (by decide) (by decide)
    refine ⟨front ++ equal :: tokens, by rw [hfront, hequal, htokens, hrest, List.append_assoc]; rfl, ?_⟩
    rcases hassigned with ⟨id, name, rfl, rfl⟩ | ⟨id, object, name, rfl, rfl⟩
    · obtain ⟨rfl, hname⟩ : front = [name] ∧ name.category = .identifier := hread.target
      exact .assign hname hcategory hderives
    · obtain ⟨object', dot, rfl, hobject, hdot, hname⟩ := hread.target
      change Derives true _ _ _
      simpa [Expr.erase] using Derives.set hobject hdot hname hcategory hderives
  · cases h
    obtain ⟨tokens, htokens, hread⟩ := hsound (.operation loosest) _ _ _ htarget hnil
    exact ⟨tokens, htokens, .tighter rfl (hread (by decide) (by decide)).1⟩

theorem operation_sound (level : Nat) :
    SoundFor setting (fun rule => rule.step sub) (.operation level) := by
  intro before tree after h hnil
  obtain ⟨left, middle, hleft, h⟩ := bind_eq_ok.mp h
  have hmiddle := ((hsub _).of_ok h).errors_eq_nil hnil
  obtain ⟨front, hfront, hunary⟩ := hsound .unary _ _ _ hleft hmiddle
  obtain ⟨tokens, htokens, hread⟩ := hsound (.operators level left) _ _ _ h hnil
  refine ⟨front ++ tokens, by simp [hfront, htokens], fun hpos hle => ?_⟩
  refine hread 7 front hpos hle (by decide) (fun tightness htightness => ?_) hunary
  obtain ⟨category, -, hlevel⟩ := Option.bind_eq_some_iff.mp htightness
  have := infixLevel_bounds hlevel
  omega

theorem operators_sound (hending : setting.ending.category = .eof) (level : Nat) (left : Expr) :
    SoundFor setting (fun rule => rule.step sub) (.operators level left) := by
  intro before tree after h hnil
  change result (operators sub level left) setting before = _ at h
  rw [operators, bind_of_ok result_peek] at h
  have hpeek := infixLevel_peek hending before.rest
  cases hlevel : infixLevel (before.rest.head?.getD setting.ending).category with
  | none =>
      rw [hlevel] at h hpeek
      cases h
      refine ⟨[], rfl, fun high front hpos hle hhigh _ hleft => ⟨?_, ?_⟩⟩
      · simpa using hleft.ofLevel_le hpos hle hhigh
      · intro tightness htightness
        rw [← hpeek] at htightness
        cases htightness
  | some tightness =>
      rw [hlevel] at h hpeek
      by_cases hlt : tightness < level
      · simp only [hlt, if_true] at h
        cases h
        refine ⟨[], rfl, fun high front hpos hle hhigh _ hleft => ⟨?_, ?_⟩⟩
        · simpa using hleft.ofLevel_le hpos hle hhigh
        · intro other hother
          rw [← hpeek] at hother
          cases hother
          exact hlt
      simp only [hlt, if_false, bind_of_ok result_skip] at h
      obtain ⟨right, middle, hright, h⟩ := bind_eq_ok.mp h
      rw [bind_of_ok result_freshId] at h
      obtain ⟨operator, rest, hrest⟩ : ∃ operator rest, before.rest = operator :: rest := by
        cases hrest : before.rest with
        | nil => simp [hrest, hending, infixLevel] at hlevel
        | cons operator rest => exact ⟨operator, rest, rfl⟩
      have htoken : before.rest.head?.getD setting.ending = operator := by simp [hrest]
      rw [htoken] at h hlevel
      obtain ⟨joined, hjoined, h⟩ : ∃ joined : Expr,
          joined.erase = (Layer.ofLevel tightness).join left.erase operator right.erase ∧
            result (sub (.operators level joined)) setting middle.renewed = .ok tree after := by
        rw [Layer.join_ofLevel hlevel]
        cases hcategory : operator.category <;> rw [hcategory] at h <;> exact ⟨_, rfl, h⟩
      have hmiddle := ((hsub _).of_ok h).errors_eq_nil hnil
      obtain ⟨second, hsecond, hright⟩ := hsound (.operation _) _ _ _ hright hmiddle
      obtain ⟨tokens, htokens, hread⟩ := hsound (.operators level joined) _ _ _ h hnil
      have hbounds := infixLevel_bounds hlevel
      obtain ⟨hright, hlooser⟩ := hright (by omega) (by omega)
      refine ⟨operator :: second ++ tokens, ?_, fun high front hpos hle hhigh hbefore hleft => ?_⟩
      · rw [State.skipped_rest, hrest, List.tail_cons] at hsecond
        rw [State.renewed_rest] at htokens
        simp [hrest, hsecond, htokens]
      have hhigh' : tightness < high + 1 := hbefore _ hpeek.symm
      have hinfix := Derives.infix_ (Layer.inner_ofLevel hbounds.1 hbounds.2)
        (mem_operators_of_infixLevel hlevel)
        (hleft.ofLevel_le hbounds.1 (Nat.le_of_lt_succ hhigh') hhigh) hright
      rw [← hjoined] at hinfix
      have := hread tightness _ hpos (by omega) (by omega) hlooser hinfix
      simpa using this

omit hsub in
theorem unary_sound : SoundFor setting (fun rule => rule.step sub) .unary := by
  intro before tree after h hnil
  change result (unary sub) setting before = _ at h
  rw [unary, bind_of_ok result_peek, bind_of_ok (result_sees _), bind_of_ok (result_sees _)] at h
  split at h
  · next hsign =>
      obtain ⟨operator, rest, hrest, hcategory⟩ : ∃ operator rest, before.rest = operator :: rest ∧
          (operator.category = .symbol .bang ∨ operator.category = .symbol .minus) := by
        rcases (by simpa using hsign) with hnext | hnext
        · obtain ⟨operator, rest, hrest, hcategory⟩ := State.next?_eq_some hnext
          exact ⟨operator, rest, hrest, .inl hcategory⟩
        · obtain ⟨operator, rest, hrest, hcategory⟩ := State.next?_eq_some hnext
          exact ⟨operator, rest, hrest, .inr hcategory⟩
      rw [bind_of_ok result_skip] at h
      obtain ⟨operand, middle, hoperand, h⟩ := bind_eq_ok.mp h
      cases h
      obtain ⟨tokens, htokens, hderives⟩ := hsound .unary _ _ _ hoperand hnil
      rw [State.skipped_rest, hrest, List.tail_cons] at htokens
      refine ⟨operator :: tokens, by simp [hrest, htokens], ?_⟩
      simp only [hrest]
      exact .unary hcategory hderives
  · obtain ⟨tokens, htokens, hderives⟩ := hsound .call _ _ _ h hnil
    exact ⟨tokens, htokens, .tighter rfl hderives⟩

theorem call_sound : SoundFor setting (fun rule => rule.step sub) .call := by
  intro before tree after h hnil
  obtain ⟨left, middle, hleft, h⟩ := bind_eq_ok.mp h
  have hmiddle := ((hsub _).of_ok h).errors_eq_nil hnil
  obtain ⟨front, hfront, hprimary⟩ := hsound .primary _ _ _ hleft hmiddle
  obtain ⟨tokens, htokens, hread⟩ := hsound (.suffixes left) _ _ _ h hnil
  exact ⟨front ++ tokens, by rw [hfront, htokens, List.append_assoc],
    hread front (.tighter rfl hprimary)⟩

omit hsub in
/-- The arguments of a call up to its closing parenthesis. -/
theorem argumentList_sound {trees : List Expr}
    (h : result (argumentList sub) setting before = .ok trees after) (hnil : after.errors = []) :
    ∃ tokens, before.rest = tokens ++ after.rest ∧
      Derives true .argumentList tokens (Expr.eraseAll trees) := by
  rw [argumentList, bind_of_ok (result_sees _)] at h
  split at h
  · cases h
    exact ⟨[], rfl, .noArguments⟩
  · obtain ⟨tokens, htokens, hderives, hlength⟩ := hsound (.arguments 0) _ _ _ h hnil
    refine ⟨tokens, htokens, .someArguments hderives ?_⟩
    rw [Expr.length_eraseAll]
    omega

theorem suffixes_sound (left : Expr) :
    SoundFor setting (fun rule => rule.step sub) (.suffixes left) := by
  intro before tree after h hnil
  rcases accepts_ite_ok h with ⟨open_, hopen, hcategory, h⟩ | ⟨-, h⟩
  · obtain ⟨trees, first, htrees, h⟩ := bind_eq_ok.mp h
    obtain ⟨paren, second, hparen, h⟩ := bind_eq_ok.mp h
    rw [bind_of_ok result_freshId] at h
    obtain ⟨hrest, hclose, herrors⟩ := expect_ok hparen
    have hsecond := ((hsub _).of_ok h).errors_eq_nil hnil
    obtain ⟨tokens, htokens, hlist⟩ := argumentList_sound hsound htrees (herrors.trans hsecond)
    obtain ⟨more, hmore, hread⟩ := hsound (.suffixes _) _ _ _ h hnil
    refine ⟨open_ :: (tokens ++ [paren]) ++ more, ?_, fun front hleft => ?_⟩
    · rw [hopen, htokens, hrest, ← State.renewed_rest, hmore]
      simp
    · simpa using hread _ (.call hleft hcategory hlist hclose)
  rcases accepts_ite_ok h with ⟨dot, hdot, hcategory, h⟩ | ⟨-, h⟩
  · obtain ⟨name, first, hname, h⟩ := bind_eq_ok.mp h
    rw [bind_of_ok result_freshId] at h
    obtain ⟨hrest, hidentifier, herrors⟩ := expect_ok hname
    obtain ⟨more, hmore, hread⟩ := hsound (.suffixes _) _ _ _ h hnil
    refine ⟨dot :: name :: more, ?_, fun front hleft => ?_⟩
    · rw [hdot, hrest, ← State.renewed_rest, hmore]
      simp
    · simpa using hread _ (.property hleft hcategory hidentifier)
  · cases h
    exact ⟨[], rfl, fun front hleft => by simpa using hleft⟩

theorem arguments_sound (hlimit : setting.limit = some entryLimit) (count : Nat) :
    SoundFor setting (fun rule => rule.step sub) (.arguments count) := by
  intro before trees after h hnil
  change result (arguments sub count) setting before = _ at h
  rw [arguments, bind_of_ok (result_checkLimit _ _)] at h
  obtain ⟨argument, first, hargument, h⟩ := bind_eq_ok.mp h
  have hrest : Advances (do
      if ← accepts (.symbol .comma) then
        let rest : List Expr ← sub (.arguments (count + 1))
        return argument :: rest
      else
        return [argument]) :=
    (Advances.accepts _).bind fun _ => Advances.ite
      ((hsub _).bind fun _ => Advances.pure _) (Advances.pure _)
  have hfirst := (hrest.of_ok h).errors_eq_nil hnil
  have hchecked := ((hsub _).of_ok hargument).errors_eq_nil hfirst
  obtain ⟨hcount, hstate⟩ := State.checked_of_errors_eq_nil hlimit hchecked
  rw [hstate] at hargument
  obtain ⟨front, hfront, hderives⟩ := hsound .expression _ _ _ hargument hfirst
  rcases accepts_ite_ok h with ⟨comma, hcomma, hcategory, h⟩ | ⟨-, h⟩
  · obtain ⟨rest, second, hrest, h⟩ := bind_eq_ok.mp h
    cases h
    obtain ⟨tokens, htokens, hmore, hlength⟩ := hsound (.arguments _) _ _ _ hrest hnil
    refine ⟨front ++ comma :: tokens, ?_, .moreArguments hderives hcategory hmore, ?_⟩
    · rw [hfront, hcomma, htokens, List.append_assoc, List.cons_append]
    · rw [List.length_cons]
      omega
  · cases h
    exact ⟨front, hfront, .lastArgument hderives, hcount⟩

omit hsub in
theorem primary_sound (hending : setting.ending.category = .eof) :
    SoundFor setting (fun rule => rule.step sub) .primary := by
  intro before tree after h hnil
  change result (primary sub) setting before = _ at h
  rw [primary, bind_of_ok result_peek] at h
  cases hliteral : literal? (before.rest.head?.getD setting.ending).kind with
  | some value =>
      simp only [hliteral, bind_of_ok result_skip, bind_of_ok result_freshId] at h
      cases h
      cases hrest : before.rest with
      | nil =>
          rw [hrest, List.head?_nil, Option.getD_none, literal?_of_eof hending] at hliteral
          cases hliteral
      | cons token rest =>
          rw [hrest] at hliteral
          exact ⟨[token], by simp [hrest], .literal hliteral⟩
  | none =>
      simp only [hliteral] at h
      rcases accepts_ite_ok h with ⟨keyword, hkeyword, hcategory, h⟩ | ⟨-, h⟩
      · obtain ⟨dot, first, hdot, h⟩ := bind_eq_ok.mp h
        obtain ⟨method, second, hmethod, h⟩ := bind_eq_ok.mp h
        cases h
        obtain ⟨hfirst, hdot, -⟩ := expect_ok hdot
        obtain ⟨hsecond, hmethod, -⟩ := expect_ok hmethod
        refine ⟨[keyword, dot, method], by rw [hkeyword, hfirst, hsecond]; rfl, ?_⟩
        rw [hkeyword]
        exact .super_ hcategory hdot hmethod
      rcases accepts_ite_ok h with ⟨keyword, hkeyword, hcategory, h⟩ | ⟨-, h⟩
      · cases h
        refine ⟨[keyword], hkeyword, ?_⟩
        rw [hkeyword]
        exact .this_ hcategory
      rcases accepts_ite_ok h with ⟨name, hname, hcategory, h⟩ | ⟨-, h⟩
      · cases h
        refine ⟨[name], hname, ?_⟩
        rw [hname]
        exact .name hcategory
      rcases accepts_ite_ok h with ⟨left, hleft, hcategory, h⟩ | ⟨-, h⟩
      · obtain ⟨inner, first, hinner, h⟩ := bind_eq_ok.mp h
        obtain ⟨right, second, hright, h⟩ := bind_eq_ok.mp h
        cases h
        obtain ⟨hrest, hclose, herrors⟩ := expect_ok hright
        obtain ⟨tokens, htokens, hderives⟩ :=
          hsound .expression _ _ _ hinner (herrors.trans hnil)
        refine ⟨left :: (tokens ++ [right]), ?_, .grouping hcategory hderives hclose⟩
        rw [hleft, htokens, hrest]
        simp
      · rw [result_giveUp] at h
        cases h

/-! ### Declarations -/

omit hsub in
/-- The body of a block with its closing brace. -/
theorem block_sound {trees : List Stmt}
    (h : result (block sub) setting before = .ok trees after) (hnil : after.errors = []) :
    ∃ tokens right, before.rest = tokens ++ right :: after.rest ∧
      right.category = .symbol .rightBrace ∧
      Derives true .declarations tokens (Stmt.eraseAll trees) := by
  obtain ⟨body, middle, hbody, h⟩ := bind_eq_ok.mp h
  obtain ⟨right, last, hright, h⟩ := bind_eq_ok.mp h
  cases h
  obtain ⟨hrest, hclose, herrors⟩ := expect_ok hright
  obtain ⟨tokens, htokens, hderives, -⟩ :=
    hsound (.declarations true) _ _ _ hbody (herrors.trans hnil)
  exact ⟨tokens, right, by rw [htokens, hrest], hclose, hderives⟩

omit hsub in
/-- The parameters of a function up to its closing parenthesis. -/
theorem parameterList_sound {names : List Token}
    (h : result (parameterList sub) setting before = .ok names after) (hnil : after.errors = []) :
    ∃ tokens, before.rest = tokens ++ after.rest ∧ Derives true .parameterList tokens names := by
  rw [parameterList, bind_of_ok (result_sees _)] at h
  split at h
  · cases h
    exact ⟨[], rfl, .noParameters⟩
  · obtain ⟨tokens, htokens, hderives, hlength⟩ := hsound (.parameters 0) _ _ _ h hnil
    exact ⟨tokens, htokens, .someParameters hderives (by omega)⟩

theorem function_sound {form : FunctionForm} {tree : FunctionDecl}
    (h : result (function sub form) setting before = .ok tree after) (hnil : after.errors = []) :
    ∃ tokens, before.rest = tokens ++ after.rest ∧ Derives true .function tokens tree.erase := by
  obtain ⟨name, first, hname, h⟩ := bind_eq_ok.mp h
  obtain ⟨left, second, hleft, h⟩ := bind_eq_ok.mp h
  obtain ⟨names, third, hnames, h⟩ := bind_eq_ok.mp h
  obtain ⟨right, fourth, hright, h⟩ := bind_eq_ok.mp h
  obtain ⟨brace, fifth, hbrace, h⟩ := bind_eq_ok.mp h
  obtain ⟨body, sixth, hbody, h⟩ := bind_eq_ok.mp h
  cases h
  obtain ⟨hfirst, hname, -⟩ := expect_ok hname
  obtain ⟨hsecond, hleft, -⟩ := expect_ok hleft
  obtain ⟨hfourth, hright, herrors⟩ := expect_ok hright
  obtain ⟨hfifth, hbrace, herrors'⟩ := expect_ok hbrace
  have hfifthNil := ((Advances.congruence.block sub hsub).of_ok hbody).errors_eq_nil hnil
  obtain ⟨tokens, htokens, hparameters⟩ :=
    parameterList_sound hsound hnames (herrors.trans (herrors'.trans hfifthNil))
  obtain ⟨inner, close, hinner, hclose, hderives⟩ := block_sound hsound hbody hnil
  refine ⟨name :: left :: (tokens ++ right :: (brace :: (inner ++ [close]))), ?_,
    .function hname hleft hparameters hright (.block hbrace hderives hclose)⟩
  rw [hfirst, hsecond, htokens, hfourth, hfifth, hinner]
  simp

omit hsub in
theorem parameters_sound (hlimit : setting.limit = some entryLimit) (count : Nat) :
    SoundFor setting (fun rule => rule.step sub) (.parameters count) := by
  intro before names after h hnil
  change result (parameters sub count) setting before = _ at h
  rw [parameters, bind_of_ok (result_checkLimit _ _)] at h
  obtain ⟨name, first, hname, h⟩ := bind_eq_ok.mp h
  obtain ⟨hfirst, hidentifier, herrors⟩ := expect_ok hname
  rw [State.checked_rest] at hfirst
  rcases accepts_ite_ok h with ⟨comma, hcomma, hcategory, h⟩ | ⟨-, h⟩
  · obtain ⟨rest, second, hrest, h⟩ := bind_eq_ok.mp h
    cases h
    obtain ⟨tokens, htokens, hmore, hlength⟩ := hsound (.parameters _) _ _ _ hrest hnil
    refine ⟨name :: comma :: tokens, ?_, .moreParameters hidentifier hcategory hmore, ?_⟩
    · rw [hfirst, hcomma, htokens]
      rfl
    · rw [List.length_cons]
      omega
  · cases h
    have hcount := (State.checked_of_errors_eq_nil hlimit (herrors.trans hnil)).1
    exact ⟨[name], hfirst, .lastParameter hidentifier, hcount⟩

theorem methods_sound : SoundFor setting (fun rule => rule.step sub) .methods := by
  intro before trees after h hnil
  change result (methods sub) setting before = _ at h
  rw [methods, bind_of_ok (result_sees _), bind_of_ok result_atEnd] at h
  split at h
  · cases h
    exact ⟨[], rfl, .noFunctions⟩
  · obtain ⟨method, first, hmethod, h⟩ := bind_eq_ok.mp h
    obtain ⟨rest, second, hrest, h⟩ := bind_eq_ok.mp h
    cases h
    have hfirst := ((hsub _).of_ok hrest).errors_eq_nil hnil
    obtain ⟨front, hfront, hderives⟩ := function_sound hsub hsound hmethod hfirst
    obtain ⟨tokens, htokens, hmore⟩ := hsound .methods _ _ _ hrest hnil
    exact ⟨front ++ tokens, by rw [hfront, htokens, List.append_assoc],
      .moreFunctions hderives hmore⟩

omit hsub hsound in
/-- The superclass of a class, if there is one. -/
theorem superclassClause_sound {superclass : Option Expr}
    (h : result superclassClause setting before = .ok superclass after) :
    before.errors = after.errors ∧
      ((superclass = none ∧ before.rest = after.rest) ∨
        ∃ less name id, superclass = some (.var id name) ∧ less.category = .symbol .less ∧
          name.category = .identifier ∧ before.rest = less :: name :: after.rest) := by
  rcases accepts_ite_ok h with ⟨less, hless, hcategory, h⟩ | ⟨-, h⟩
  · obtain ⟨name, first, hname, h⟩ := bind_eq_ok.mp h
    cases h
    obtain ⟨hrest, hidentifier, herrors⟩ := expect_ok hname
    rw [State.skipped_errors] at herrors
    exact ⟨herrors, .inr ⟨less, name, _, rfl, hcategory, hidentifier, by rw [hless, hrest]⟩⟩
  · cases h
    exact ⟨rfl, .inl ⟨rfl, rfl⟩⟩

omit hsub in
theorem classDeclaration_sound {tree : Stmt}
    (h : result (classDeclaration sub) setting before = .ok tree after) (hnil : after.errors = [])
    {keyword : Token} (hkeyword : keyword.category = .keyword .class_) :
    ∃ tokens, before.rest = tokens ++ after.rest ∧
      Derives true .declaration (keyword :: tokens) tree.erase := by
  obtain ⟨name, first, hname, h⟩ := bind_eq_ok.mp h
  obtain ⟨superclass, second, hsuperclass, h⟩ := bind_eq_ok.mp h
  obtain ⟨left, third, hleft, h⟩ := bind_eq_ok.mp h
  obtain ⟨trees, fourth, htrees, h⟩ := bind_eq_ok.mp h
  obtain ⟨right, fifth, hright, h⟩ := bind_eq_ok.mp h
  cases h
  obtain ⟨hfirst, hname, -⟩ := expect_ok hname
  obtain ⟨hthird, hleft, -⟩ := expect_ok hleft
  obtain ⟨hfifth, hright, herrors⟩ := expect_ok hright
  obtain ⟨tokens, htokens, hderives⟩ := hsound .methods _ _ _ htrees (herrors.trans hnil)
  obtain ⟨-, ⟨rfl, hsecond⟩ | ⟨less, parent, id, rfl, hless, hparent, hsecond⟩⟩ :=
    superclassClause_sound hsuperclass
  · refine ⟨name :: left :: (tokens ++ [right]), ?_,
      .classDeclaration (.class_ hkeyword hname hleft hderives hright)⟩
    rw [hfirst, hsecond, hthird, htokens, hfifth]
    simp
  · refine ⟨name :: less :: parent :: left :: (tokens ++ [right]), ?_,
      .classDeclaration (.subclass hkeyword hname hless hparent hleft hderives hright)⟩
    rw [hfirst, hsecond, hthird, htokens, hfifth]
    simp

omit hsub in
theorem varDeclaration_sound {tree : Stmt}
    (h : result (varDeclaration sub) setting before = .ok tree after) (hnil : after.errors = [])
    {keyword : Token} (hkeyword : keyword.category = .keyword .var_) :
    ∃ tokens, before.rest = tokens ++ after.rest ∧
      Derives true .variableDeclaration (keyword :: tokens) tree.erase := by
  obtain ⟨name, first, hname, h⟩ := bind_eq_ok.mp h
  obtain ⟨initializer, second, hinitializer, h⟩ := bind_eq_ok.mp h
  obtain ⟨semicolon, third, hsemicolon, h⟩ := bind_eq_ok.mp h
  cases h
  obtain ⟨hfirst, hname, -⟩ := expect_ok hname
  obtain ⟨hthird, hend, herrors⟩ := expect_ok hsemicolon
  rcases accepts_ite_ok hinitializer with ⟨equal, hequal, hcategory, h⟩ | ⟨-, h⟩
  · obtain ⟨value, fourth, hvalue, h⟩ := bind_eq_ok.mp h
    cases h
    obtain ⟨tokens, htokens, hderives⟩ := hsound .expression _ _ _ hvalue (herrors.trans hnil)
    refine ⟨name :: equal :: (tokens ++ [semicolon]), ?_,
      .initializedVariable hkeyword hname hcategory hderives hend⟩
    rw [hfirst, hequal, htokens, hthird]
    simp
  · cases h
    refine ⟨[name, semicolon], ?_, .variable_ hkeyword hname hend⟩
    rw [hfirst, hthird]
    rfl

theorem plainDeclaration_sound {tree : Stmt}
    (h : result (plainDeclaration sub) setting before = .ok tree after) (hnil : after.errors = []) :
    ∃ tokens, before.rest = tokens ++ after.rest ∧ Derives true .declaration tokens tree.erase := by
  rcases accepts_ite_ok h with ⟨keyword, hkeyword, hcategory, h⟩ | ⟨-, h⟩
  · obtain ⟨tokens, htokens, hderives⟩ := classDeclaration_sound hsound h hnil hcategory
    exact ⟨keyword :: tokens, by rw [hkeyword, htokens]; rfl, hderives⟩
  rcases accepts_ite_ok h with ⟨keyword, hkeyword, hcategory, h⟩ | ⟨-, h⟩
  · obtain ⟨declaration, middle, hdeclaration, h⟩ := bind_eq_ok.mp h
    cases h
    obtain ⟨tokens, htokens, hderives⟩ := function_sound hsub hsound hdeclaration hnil
    exact ⟨keyword :: tokens, by rw [hkeyword, htokens]; rfl,
      .functionDeclaration hcategory hderives⟩
  rcases accepts_ite_ok h with ⟨keyword, hkeyword, hcategory, h⟩ | ⟨-, h⟩
  · obtain ⟨tokens, htokens, hderives⟩ := varDeclaration_sound hsound h hnil hcategory
    exact ⟨keyword :: tokens, by rw [hkeyword, htokens]; rfl, .variableDeclaration hderives⟩
  · obtain ⟨tokens, htokens, dangling, hderives, -⟩ := hsound .statement _ _ _ h hnil
    exact ⟨tokens, htokens, .statement hderives⟩

/-- A declaration that leaves no error behind was understood. -/
theorem declaration_sound : SoundFor setting (fun rule => rule.step sub) .declaration := by
  intro before tree after h hnil
  change result (declaration sub) setting before = _ at h
  rw [declaration, result_tryCatch, map_eq_bind] at h
  cases hplain : result (plainDeclaration sub) setting before with
  | ok statement middle =>
      rw [bind_of_ok hplain] at h
      cases h
      obtain ⟨tokens, htokens, hderives⟩ := plainDeclaration_sound hsub hsound hplain hnil
      exact ⟨tokens, htokens, statement, rfl, hderives⟩
  | error halt middle =>
      rw [bind_of_error hplain] at h
      cases halt with
      | outOfFuel => cases h
      | fault error =>
          replace h : result (do note error; synchronize; return none) setting middle =
            .ok tree after := h
          rw [bind_of_ok (result_note error), bind_of_ok result_synchronize] at h
          cases h
          have herrors := (Advance.synchronized (middle.noted error)).errors_eq_nil hnil
          simp [State.noted] at herrors

theorem declarations_sound (inBlock : Bool) :
    SoundFor setting (fun rule => rule.step sub) (.declarations inBlock) := by
  intro before trees after h hnil
  change result (declarations sub inBlock) setting before = _ at h
  rw [declarations, bind_of_ok (result_sees _), bind_of_ok result_atEnd] at h
  split at h
  · next hend =>
      cases h
      refine ⟨[], rfl, .noDeclarations, fun hblock => ?_⟩
      simpa [hblock] using hend
  · obtain ⟨first, middle, hfirst, h⟩ := bind_eq_ok.mp h
    obtain ⟨rest, last, hrest, h⟩ := bind_eq_ok.mp h
    cases h
    have hmiddle := ((hsub _).of_ok hrest).errors_eq_nil hnil
    obtain ⟨front, hfront, statement, rfl, hderives⟩ := hsound .declaration _ _ _ hfirst hmiddle
    obtain ⟨tokens, htokens, hmore, hend⟩ := hsound (.declarations _) _ _ _ hrest hnil
    exact ⟨front ++ tokens, by rw [hfront, htokens, List.append_assoc],
      .moreDeclarations hderives hmore, hend⟩

/-! ### Statements -/

omit hsub in
theorem expressionStatement_sound {tree : Stmt}
    (h : result (expressionStatement sub) setting before = .ok tree after)
    (hnil : after.errors = []) :
    ∃ tokens semicolon value, before.rest = tokens ++ semicolon :: after.rest ∧
      Derives true (.expression .assignment) tokens value ∧
        semicolon.category = .symbol .semicolon ∧ tree.erase = .expression value := by
  obtain ⟨value, first, hvalue, h⟩ := bind_eq_ok.mp h
  obtain ⟨semicolon, second, hsemicolon, h⟩ := bind_eq_ok.mp h
  cases h
  obtain ⟨hsecond, hsemicolon, herrors⟩ := expect_ok hsemicolon
  obtain ⟨tokens, htokens, hderives⟩ := hsound .expression _ _ _ hvalue (herrors.trans hnil)
  exact ⟨tokens, semicolon, value.erase, by rw [htokens, hsecond], hderives, hsemicolon, rfl⟩

omit hsub in
theorem expressionUnless_sound {symbol : Symbol} {value : Option Expr}
    (h : result (expressionUnless sub symbol) setting before = .ok value after)
    (hnil : after.errors = []) :
    ∃ tokens, before.rest = tokens ++ after.rest ∧
      Derives true .optionalExpression tokens (value.map Expr.erase) := by
  rw [expressionUnless, bind_of_ok (result_sees _)] at h
  split at h
  · cases h
    exact ⟨[], rfl, .noExpression⟩
  · obtain ⟨value, middle, hvalue, h⟩ := bind_eq_ok.mp h
    cases h
    obtain ⟨tokens, htokens, hderives⟩ := hsound .expression _ _ _ hvalue hnil
    exact ⟨tokens, htokens, .someExpression hderives⟩

omit hsub in
theorem forInitializer_sound {initializer : Option Stmt}
    (h : result (forInitializer sub) setting before = .ok initializer after)
    (hnil : after.errors = []) :
    ∃ tokens, before.rest = tokens ++ after.rest ∧
      Derives true .forInitializer tokens (initializer.map Stmt.erase) := by
  rcases accepts_ite_ok h with ⟨semicolon, hsemicolon, hcategory, h⟩ | ⟨-, h⟩
  · cases h
    exact ⟨[semicolon], hsemicolon, .noInitializer hcategory⟩
  rcases accepts_ite_ok h with ⟨keyword, hkeyword, hcategory, h⟩ | ⟨-, h⟩
  · rw [map_eq_bind] at h
    obtain ⟨tree, middle, htree, h⟩ := bind_eq_ok.mp h
    cases h
    obtain ⟨tokens, htokens, hderives⟩ := varDeclaration_sound hsound htree hnil hcategory
    exact ⟨keyword :: tokens, by rw [hkeyword, htokens]; rfl, .variableInitializer hderives⟩
  · rw [map_eq_bind] at h
    obtain ⟨tree, middle, htree, h⟩ := bind_eq_ok.mp h
    cases h
    obtain ⟨tokens, semicolon, value, htokens, hderives, hsemicolon, herase⟩ :=
      expressionStatement_sound hsound htree hnil
    refine ⟨tokens ++ [semicolon], by rw [htokens]; simp, ?_⟩
    rw [Option.map_some, herase]
    exact .expressionInitializer hderives hsemicolon

theorem forStatement_sound {tree : Stmt}
    (h : result (forStatement sub) setting before = .ok tree after) (hnil : after.errors = [])
    {keyword : Token} (hkeyword : keyword.category = .keyword .for_) :
    ∃ tokens, before.rest = tokens ++ after.rest ∧
      ∃ dangling, Derives true (.statement dangling) (keyword :: tokens) tree.erase ∧
        (dangling = true → after.next? ≠ some (.keyword .else_)) := by
  obtain ⟨left, first, hleft, h⟩ := bind_eq_ok.mp h
  obtain ⟨initializer, second, hinitializer, h⟩ := bind_eq_ok.mp h
  obtain ⟨condition, third, hcondition, h⟩ := bind_eq_ok.mp h
  obtain ⟨semicolon, fourth, hsemicolon, h⟩ := bind_eq_ok.mp h
  obtain ⟨increment, fifth, hincrement, h⟩ := bind_eq_ok.mp h
  obtain ⟨right, sixth, hright, h⟩ := bind_eq_ok.mp h
  obtain ⟨body, seventh, hbody, h⟩ := bind_eq_ok.mp h
  obtain ⟨test, eighth, htest, h⟩ := bind_eq_ok.mp h
  have hend : seventh.errors = after.errors ∧ seventh.rest = after.rest ∧
      tree.erase = desugarFor (initializer.map Stmt.erase) (condition.map Expr.erase)
        (increment.map Expr.erase) body.erase := by
    cases condition <;> cases htest <;> cases increment <;> cases initializer <;> cases h <;>
      exact ⟨rfl, rfl, rfl⟩
  obtain ⟨herrors, hrest, herase⟩ := hend
  have hseventh := herrors.trans hnil
  have hsixth := ((hsub _).of_ok hbody).errors_eq_nil hseventh
  obtain ⟨hsixthRest, hclose, hfifthErrors⟩ := expect_ok hright
  have hfifth := hfifthErrors.trans hsixth
  have hunless (symbol : Symbol) : Advances (expressionUnless sub symbol) :=
    Advances.congruence.expressionUnless sub hsub symbol
  have hfourth := ((hunless _).of_ok hincrement).errors_eq_nil hfifth
  obtain ⟨hfourthRest, hsemicolon, hthirdErrors⟩ := expect_ok hsemicolon
  have hthird := hthirdErrors.trans hfourth
  have hsecond := ((hunless _).of_ok hcondition).errors_eq_nil hthird
  obtain ⟨hfirstRest, hopen, -⟩ := expect_ok hleft
  obtain ⟨tokens₁, htokens₁, hderives₁⟩ := forInitializer_sound hsound hinitializer hsecond
  obtain ⟨tokens₂, htokens₂, hderives₂⟩ := expressionUnless_sound hsound hcondition hthird
  obtain ⟨tokens₃, htokens₃, hderives₃⟩ := expressionUnless_sound hsound hincrement hfifth
  obtain ⟨tokens₄, htokens₄, dangling, hderives₄, helse⟩ :=
    hsound .statement _ _ _ hbody hseventh
  refine ⟨left :: (tokens₁ ++ (tokens₂ ++ semicolon :: (tokens₃ ++ right :: tokens₄))), ?_,
    dangling, ?_, fun h => ?_⟩
  · rw [hfirstRest, htokens₁, htokens₂, hfourthRest, htokens₃, hsixthRest, htokens₄, hrest]
    simp
  · rw [herase]
    exact .for_ hkeyword hopen hderives₁ hderives₂ hsemicolon hderives₃ hclose hderives₄
  · rw [State.next?, ← hrest]
    exact helse h

theorem ifStatement_sound {tree : Stmt}
    (h : result (ifStatement sub) setting before = .ok tree after) (hnil : after.errors = [])
    {keyword : Token} (hkeyword : keyword.category = .keyword .if_) :
    ∃ tokens, before.rest = tokens ++ after.rest ∧
      ∃ dangling, Derives true (.statement dangling) (keyword :: tokens) tree.erase ∧
        (dangling = true → after.next? ≠ some (.keyword .else_)) := by
  obtain ⟨left, first, hleft, h⟩ := bind_eq_ok.mp h
  obtain ⟨condition, second, hcondition, h⟩ := bind_eq_ok.mp h
  obtain ⟨right, third, hright, h⟩ := bind_eq_ok.mp h
  obtain ⟨thenBranch, fourth, hthen, h⟩ := bind_eq_ok.mp h
  obtain ⟨hfirst, hopen, -⟩ := expect_ok hleft
  obtain ⟨hthird, hclose, herrors⟩ := expect_ok hright
  have hfourth : fourth.errors = [] := by
    rcases accepts_ite_ok h with ⟨_, -, -, h⟩ | ⟨-, h⟩
    · obtain ⟨_, _, helse, h⟩ := bind_eq_ok.mp h
      cases h
      simpa using ((hsub _).of_ok helse).errors_eq_nil hnil
    · cases h
      exact hnil
  have hthirdNil := ((hsub _).of_ok hthen).errors_eq_nil hfourth
  obtain ⟨test, htest, hderives⟩ :=
    hsound .expression _ _ _ hcondition (herrors.trans hthirdNil)
  obtain ⟨branch, hbranch, open_, hfirstBranch, hnext⟩ := hsound .statement _ _ _ hthen hfourth
  rcases accepts_ite_ok h with ⟨else_, helse, hcategory, h⟩ | ⟨hnot, h⟩
  · obtain ⟨elseBranch, fifth, hread, h⟩ := bind_eq_ok.mp h
    cases h
    obtain ⟨tokens, htokens, dangling, hsecondBranch, hafter⟩ :=
      hsound .statement _ _ _ hread hnil
    -- the `else` is there, so that the branch before it cannot be waiting for one
    have hclosed : open_ = false := by
      cases open_ with
      | false => rfl
      | true =>
          have helse : fourth.next? = some else_.category := by rw [State.next?, helse]; rfl
          exact absurd (helse.trans (congrArg some hcategory)) (hnext rfl)
    refine ⟨left :: (test ++ right :: (branch ++ else_ :: tokens)), ?_, dangling,
      .ifElse hkeyword hopen hderives hclose hfirstBranch (fun _ => hclosed) hcategory
        hsecondBranch, hafter⟩
    rw [hfirst, htest, hthird, hbranch, helse, htokens]
    simp
  · cases h
    refine ⟨left :: (test ++ right :: branch), ?_, true,
      .ifThen hkeyword hopen hderives hclose hfirstBranch, fun _ => hnot⟩
    rw [hfirst, htest, hthird, hbranch]
    simp

theorem whileStatement_sound {tree : Stmt}
    (h : result (whileStatement sub) setting before = .ok tree after) (hnil : after.errors = [])
    {keyword : Token} (hkeyword : keyword.category = .keyword .while_) :
    ∃ tokens, before.rest = tokens ++ after.rest ∧
      ∃ dangling, Derives true (.statement dangling) (keyword :: tokens) tree.erase ∧
        (dangling = true → after.next? ≠ some (.keyword .else_)) := by
  obtain ⟨left, first, hleft, h⟩ := bind_eq_ok.mp h
  obtain ⟨condition, second, hcondition, h⟩ := bind_eq_ok.mp h
  obtain ⟨right, third, hright, h⟩ := bind_eq_ok.mp h
  obtain ⟨body, fourth, hbody, h⟩ := bind_eq_ok.mp h
  cases h
  obtain ⟨hfirst, hopen, -⟩ := expect_ok hleft
  obtain ⟨hthird, hclose, herrors⟩ := expect_ok hright
  have hthirdNil := ((hsub _).of_ok hbody).errors_eq_nil hnil
  obtain ⟨test, htest, hderives⟩ :=
    hsound .expression _ _ _ hcondition (herrors.trans hthirdNil)
  obtain ⟨tokens, htokens, dangling, hstatement, hnext⟩ := hsound .statement _ _ _ hbody hnil
  refine ⟨left :: (test ++ right :: tokens), ?_, dangling,
    .while_ hkeyword hopen hderives hclose hstatement, hnext⟩
  rw [hfirst, htest, hthird, htokens]
  simp

theorem statement_sound : SoundFor setting (fun rule => rule.step sub) .statement := by
  intro before tree after h hnil
  change result (statement sub) setting before = _ at h
  rw [statement, bind_of_ok result_peek] at h
  rcases accepts_ite_ok h with ⟨keyword, hkeyword, hcategory, h⟩ | ⟨-, h⟩
  · obtain ⟨tokens, htokens, hread⟩ := forStatement_sound hsub hsound h hnil hcategory
    exact ⟨keyword :: tokens, by rw [hkeyword, htokens]; rfl, hread⟩
  rcases accepts_ite_ok h with ⟨keyword, hkeyword, hcategory, h⟩ | ⟨-, h⟩
  · obtain ⟨tokens, htokens, hread⟩ := ifStatement_sound hsub hsound h hnil hcategory
    exact ⟨keyword :: tokens, by rw [hkeyword, htokens]; rfl, hread⟩
  rcases accepts_ite_ok h with ⟨keyword, hkeyword, hcategory, h⟩ | ⟨-, h⟩
  · obtain ⟨value, first, hvalue, h⟩ := bind_eq_ok.mp h
    obtain ⟨semicolon, second, hsemicolon, h⟩ := bind_eq_ok.mp h
    cases h
    obtain ⟨hrest, hend, herrors⟩ := expect_ok hsemicolon
    obtain ⟨tokens, htokens, hderives⟩ := hsound .expression _ _ _ hvalue (herrors.trans hnil)
    refine ⟨keyword :: (tokens ++ [semicolon]), ?_, false, .print hcategory hderives hend, nofun⟩
    rw [hkeyword, htokens, hrest]
    simp
  rcases accepts_ite_ok h with ⟨keyword, hkeyword, hcategory, h⟩ | ⟨-, h⟩
  · obtain ⟨value, first, hvalue, h⟩ := bind_eq_ok.mp h
    obtain ⟨semicolon, second, hsemicolon, h⟩ := bind_eq_ok.mp h
    cases h
    obtain ⟨hrest, hend, herrors⟩ := expect_ok hsemicolon
    obtain ⟨tokens, htokens, hderives⟩ := expressionUnless_sound hsound hvalue (herrors.trans hnil)
    refine ⟨keyword :: (tokens ++ [semicolon]), ?_, false, ?_, nofun⟩
    · rw [hkeyword, htokens, hrest]
      simp
    · rw [hkeyword]
      exact .return_ hcategory hderives hend
  rcases accepts_ite_ok h with ⟨keyword, hkeyword, hcategory, h⟩ | ⟨-, h⟩
  · obtain ⟨tokens, htokens, hread⟩ := whileStatement_sound hsub hsound h hnil hcategory
    exact ⟨keyword :: tokens, by rw [hkeyword, htokens]; rfl, hread⟩
  rcases accepts_ite_ok h with ⟨left, hleft, hcategory, h⟩ | ⟨-, h⟩
  · obtain ⟨body, middle, hbody, h⟩ := bind_eq_ok.mp h
    cases h
    obtain ⟨tokens, right, htokens, hclose, hderives⟩ := block_sound hsound hbody hnil
    refine ⟨left :: (tokens ++ [right]), ?_, false,
      .blockStatement (.block hcategory hderives hclose), nofun⟩
    rw [hleft, htokens]
    simp
  · obtain ⟨tokens, semicolon, value, htokens, hderives, hsemicolon, herase⟩ :=
      expressionStatement_sound hsound h hnil
    refine ⟨tokens ++ [semicolon], by rw [htokens]; simp, false, ?_, nofun⟩
    rw [herase]
    exact .expressionStatement hderives hsemicolon

end

/-! ## Programs -/

/-- Reading by a rule is sound if reading by the rules that it refers to is. -/
theorem Rule.step_sound {sub : Readers} (hending : setting.ending.category = .eof)
    (hlimit : setting.limit = some entryLimit) (hsub : ∀ rule, Advances (sub rule))
    (hsound : ∀ rule, SoundFor setting sub rule) (rule : Rule) :
    SoundFor setting (fun rule => rule.step sub) rule := by
  cases rule with
  | declarations inBlock => exact declarations_sound hsub hsound inBlock
  | declaration => exact declaration_sound hsub hsound
  | statement => exact statement_sound hsub hsound
  | methods => exact methods_sound hsub hsound
  | parameters count => exact parameters_sound hsound hlimit count
  | expression => exact expression_sound hsub hsound
  | operation level => exact operation_sound hsub hsound level
  | operators level left => exact operators_sound hsub hsound hending level left
  | unary => exact unary_sound hsound
  | call => exact call_sound hsub hsound
  | suffixes left => exact suffixes_sound hsub hsound left
  | arguments count => exact arguments_sound hsub hsound hlimit count
  | primary => exact primary_sound hsound hending

theorem Rule.run_sound (hending : setting.ending.category = .eof)
    (hlimit : setting.limit = some entryLimit) (fuel : Nat) (rule : Rule) :
    SoundFor setting (Rule.run fuel) rule := by
  induction fuel generalizing rule with
  | zero => exact fun _ _ _ h _ => by cases h
  | succ fuel ih => exact Rule.step_sound hending hlimit (Rule.run_advances fuel) ih rule

end Lox.Grammar
