import Lox.Proofs.Syntax.Erasure
import Lox.Proofs.Syntax.Twin

/-!
# Trees with other tokens

A tree in which every token is replaced by another one that says the same, and every identity by
any other, is a twin of the tree.
-/

namespace Lox

section

variable (f : Token → Token)

mutual

/-- The expression with its tokens replaced. -/
def Expr.mapTokens : Expr → Expr
  | .literal id value => .literal id value
  | .grouping id inner => .grouping id inner.mapTokens
  | .unary id operator operand => .unary id (f operator) operand.mapTokens
  | .binary id left operator right => .binary id left.mapTokens (f operator) right.mapTokens
  | .logical id left operator right => .logical id left.mapTokens (f operator) right.mapTokens
  | .var id name => .var id (f name)
  | .assign id name value => .assign id (f name) value.mapTokens
  | .call id callee paren arguments =>
      .call id callee.mapTokens (f paren) (Expr.mapTokensAll arguments)
  | .get id object name => .get id object.mapTokens (f name)
  | .set id object name value => .set id object.mapTokens (f name) value.mapTokens
  | .super_ id keyword method => .super_ id (f keyword) (f method)
  | .this_ id keyword => .this_ id (f keyword)

/-- The expressions with their tokens replaced. -/
def Expr.mapTokensAll : List Expr → List Expr
  | [] => []
  | e :: rest => e.mapTokens :: Expr.mapTokensAll rest

end

mutual

/-- The statement with its tokens replaced. -/
def Stmt.mapTokens : Stmt → Stmt
  | .expression value => .expression (value.mapTokens f)
  | .print value => .print (value.mapTokens f)
  | .var name initializer => .var (f name) (initializer.map (Expr.mapTokens f))
  | .block body => .block (Stmt.mapTokensAll body)
  | .function declaration => .function declaration.mapTokens
  | .class_ name superclass methods =>
      .class_ (f name) (superclass.map (Expr.mapTokens f)) (FunctionDecl.mapTokensAll methods)
  | .ifThen condition thenBranch => .ifThen (condition.mapTokens f) thenBranch.mapTokens
  | .ifElse condition thenBranch elseBranch =>
      .ifElse (condition.mapTokens f) thenBranch.mapTokens elseBranch.mapTokens
  | .while_ condition body => .while_ (condition.mapTokens f) body.mapTokens
  | .return_ keyword value => .return_ (f keyword) (value.map (Expr.mapTokens f))

/-- The statements with their tokens replaced. -/
def Stmt.mapTokensAll : List Stmt → List Stmt
  | [] => []
  | s :: rest => s.mapTokens :: Stmt.mapTokensAll rest

/-- The function with its tokens replaced. -/
def FunctionDecl.mapTokens : FunctionDecl → FunctionDecl
  | ⟨name, parameters, body⟩ => ⟨f name, parameters.map f, Stmt.mapTokensAll body⟩

/-- The functions with their tokens replaced. -/
def FunctionDecl.mapTokensAll : List FunctionDecl → List FunctionDecl
  | [] => []
  | d :: rest => d.mapTokens :: FunctionDecl.mapTokensAll rest

end

theorem Expr.length_mapTokensAll (es : List Expr) : (Expr.mapTokensAll f es).length = es.length := by
  induction es with
  | nil => rfl
  | cons e rest ih => simp [Expr.mapTokensAll, ih]

end

mutual

theorem Expr.mapTokens_id (e : Expr) : e.mapTokens (fun token => token) = e := by
  cases e with
  | grouping id inner => simp [Expr.mapTokens, Expr.mapTokens_id inner]
  | unary id operator operand => simp [Expr.mapTokens, Expr.mapTokens_id operand]
  | binary id left operator right =>
      simp [Expr.mapTokens, Expr.mapTokens_id left, Expr.mapTokens_id right]
  | logical id left operator right =>
      simp [Expr.mapTokens, Expr.mapTokens_id left, Expr.mapTokens_id right]
  | assign id name value => simp [Expr.mapTokens, Expr.mapTokens_id value]
  | call id callee paren arguments =>
      simp [Expr.mapTokens, Expr.mapTokens_id callee, Expr.mapTokensAll_id arguments]
  | get id object name => simp [Expr.mapTokens, Expr.mapTokens_id object]
  | set id object name value =>
      simp [Expr.mapTokens, Expr.mapTokens_id object, Expr.mapTokens_id value]
  | _ => rfl

theorem Expr.mapTokensAll_id (es : List Expr) : Expr.mapTokensAll (fun token => token) es = es := by
  cases es with
  | nil => rfl
  | cons e rest => simp [Expr.mapTokensAll, Expr.mapTokens_id e, Expr.mapTokensAll_id rest]

end

theorem Expr.map_mapTokens_id (e : Option Expr) : e.map (Expr.mapTokens fun token => token) = e := by
  cases e with
  | none => rfl
  | some e => rw [Option.map_some, Expr.mapTokens_id]

mutual

theorem Stmt.mapTokens_id (s : Stmt) : s.mapTokens (fun token => token) = s := by
  cases s with
  | expression value => simp [Stmt.mapTokens, Expr.mapTokens_id]
  | print value => simp [Stmt.mapTokens, Expr.mapTokens_id]
  | var name initializer => simp [Stmt.mapTokens, Expr.map_mapTokens_id]
  | block body => simp [Stmt.mapTokens, Stmt.mapTokensAll_id body]
  | function declaration => simp [Stmt.mapTokens, FunctionDecl.mapTokens_id declaration]
  | class_ name superclass methods =>
      simp [Stmt.mapTokens, Expr.map_mapTokens_id, FunctionDecl.mapTokensAll_id methods]
  | ifThen condition thenBranch =>
      simp [Stmt.mapTokens, Expr.mapTokens_id, Stmt.mapTokens_id thenBranch]
  | ifElse condition thenBranch elseBranch =>
      simp [Stmt.mapTokens, Expr.mapTokens_id, Stmt.mapTokens_id thenBranch,
        Stmt.mapTokens_id elseBranch]
  | while_ condition body => simp [Stmt.mapTokens, Expr.mapTokens_id, Stmt.mapTokens_id body]
  | return_ keyword value => simp [Stmt.mapTokens, Expr.map_mapTokens_id]

/-- Tokens that are replaced by themselves make no difference. -/
theorem Stmt.mapTokensAll_id (statements : List Stmt) :
    Stmt.mapTokensAll (fun token => token) statements = statements := by
  cases statements with
  | nil => rfl
  | cons s rest => simp [Stmt.mapTokensAll, Stmt.mapTokens_id s, Stmt.mapTokensAll_id rest]

theorem FunctionDecl.mapTokens_id (declaration : FunctionDecl) :
    declaration.mapTokens (fun token => token) = declaration := by
  cases declaration with
  | mk name parameters body => simp [FunctionDecl.mapTokens, Stmt.mapTokensAll_id body]

theorem FunctionDecl.mapTokensAll_id (methods : List FunctionDecl) :
    FunctionDecl.mapTokensAll (fun token => token) methods = methods := by
  cases methods with
  | nil => rfl
  | cons method rest =>
      simp [FunctionDecl.mapTokensAll, FunctionDecl.mapTokens_id method,
        FunctionDecl.mapTokensAll_id rest]

end

/-! ## Copies -/

/-- The tokens are replaced by others that say the same. -/
structure Faithful (f : Token → Token) : Prop where
  kind : ∀ token, (f token).kind = token.kind
  lexeme : ∀ token, (f token).lexeme = token.lexeme

/-- What a tree has to do with a copy of it: which expressions go together, the distances in the
tree, and how the tokens are replaced. No name is changed. -/
def Pairing.copy (node : NodeId → NodeId → Prop) (distance : NodeId → Option Nat)
    (f : Token → Token) : Pairing where
  node := node
  matched id id' found := node id id' ∧ distance id = found
  token token token' := token' = f token
  renamer := (· = .same)
  name _ := True

/-- Scopes in which no name is changed. -/
def Unchanged (scopes : List Renamer) : Prop :=
  ∀ r ∈ scopes, r = .same

namespace Unchanged

variable {scopes : List Renamer}

theorem inside (h : Unchanged scopes) : Unchanged (.same :: scopes) := by
  rintro r (_ | ⟨_, hr⟩)
  · rfl
  · exact h r hr

theorem methodScopes (h : Unchanged scopes) (superclass : Option Expr) :
    Unchanged (methodScopes superclass scopes) := by
  rw [Lox.methodScopes]
  split
  · exact h.inside
  · exact h

theorem atDistance (h : Unchanged scopes) (found : Option Nat) :
    Renamer.atDistance scopes found = .same := by
  cases found with
  | none => rfl
  | some distance =>
      rw [Renamer.atDistance, List.getD_eq_getElem?_getD]
      cases hscope : scopes[distance]? with
      | none => rfl
      | some r => exact h r (List.mem_of_getElem? hscope)

theorem innermost (h : Unchanged scopes) : Renamer.innermost scopes = .same := by
  cases scopes with
  | nil => rfl
  | cons r rest => exact h r List.mem_cons_self

end Unchanged

section

variable {node : NodeId → NodeId → Prop} {distance : NodeId → Option Nat} {f : Token → Token}
  {scopes : List Renamer} (hf : Faithful f)

include hf

theorem Pairing.copy_same (token : Token) :
    (Pairing.copy node distance f).Same token (f token) := by
  refine ⟨?_, hf.lexeme token, rfl⟩
  rw [Token.category, Token.category, hf.kind]

theorem Pairing.copy_named (hscopes : Unchanged scopes) (name : Token) :
    (Pairing.copy node distance f).Named (.innermost scopes) name (f name) :=
  ⟨True.intro, by rw [hscopes.innermost]; exact hf.lexeme name, rfl⟩

theorem Pairing.copy_kept (hscopes : Unchanged scopes) (name : Token) :
    (Pairing.copy node distance f).Kept scopes name (f name) :=
  ⟨True.intro, Pairing.copy_same hf name, by rw [hscopes.innermost]; rfl⟩

theorem Pairing.copy_use (hscopes : Unchanged scopes) {id id' : NodeId} (h : node id id')
    (name : Token) :
    (Pairing.copy node distance f).Use scopes id id' (distance id) name (f name) :=
  ⟨True.intro, h, ⟨h, rfl⟩, by rw [hscopes.atDistance]; exact hf.lexeme name, rfl⟩

end

/-- Related lists whose first parts are equally long are related part by part. -/
theorem forall₂_split {α β : Type} {r : α → β → Prop} {xs more : List α} {ys below : List β}
    (hlength : ys.length = xs.length) (h : List.Forall₂ r (xs ++ more) (ys ++ below)) :
    List.Forall₂ r xs ys ∧ List.Forall₂ r more below := by
  induction xs generalizing ys with
  | nil =>
      obtain rfl := List.length_eq_zero_iff.mp hlength
      exact ⟨.nil, h⟩
  | cons x xs ih =>
      cases ys with
      | nil => cases hlength
      | cons y ys =>
          obtain ⟨hfirst, hrest⟩ := List.forall₂_cons.mp h
          obtain ⟨hxs, hmore⟩ := ih (Nat.succ.inj hlength) hrest
          exact ⟨.cons hfirst hxs, hmore⟩

/-- Two trees with so many identities are twins, as soon as their identities go together one by
one. -/
structure Copied (distance : NodeId → Option Nat) (f : Token → Token) (nodes nodes' : List NodeId)
    (twin : Pairing → List Renamer → Prop) : Prop where
  length : nodes'.length = nodes.length
  twin : ∀ node, List.Forall₂ node nodes nodes' → ∀ scopes, Unchanged scopes →
    twin (.copy node distance f) scopes

namespace Copied

variable {distance : NodeId → Option Nat} {f : Token → Token} {ns ns' ms ms' : List NodeId}
  {twin twin' : Pairing → List Renamer → Prop}

theorem none (h : ∀ pairing scopes, twin pairing scopes) : Copied distance f [] [] twin :=
  ⟨rfl, fun _ _ _ _ => h _ _⟩

theorem node (id id' : NodeId) :
    Copied distance f [id] [id'] fun pairing _ => pairing.node id id' :=
  ⟨rfl, fun _ h _ _ => (List.forall₂_cons.mp h).1⟩

theorem append (h : Copied distance f ns ns' twin) (h' : Copied distance f ms ms' twin') :
    Copied distance f (ns ++ ms) (ns' ++ ms') fun pairing scopes =>
      twin pairing scopes ∧ twin' pairing scopes := by
  refine ⟨by simp [h.length, h'.length], fun node hnodes scopes hscopes => ?_⟩
  obtain ⟨hns, hms⟩ := forall₂_split h.length hnodes
  exact ⟨h.twin node hns scopes hscopes, h'.twin node hms scopes hscopes⟩

theorem imp (h : Copied distance f ns ns' twin)
    (himp : ∀ node scopes, Unchanged scopes →
      (∀ scopes, Unchanged scopes → twin (.copy node distance f) scopes) →
        twin' (.copy node distance f) scopes) : Copied distance f ns ns' twin' :=
  ⟨h.length, fun node hnodes scopes hscopes => himp node scopes hscopes (h.twin node hnodes)⟩

end Copied

section

variable {distance : NodeId → Option Nat} {f : Token → Token}

mutual

theorem Expr.copied (hf : Faithful f) (e e' : Expr) (h : e'.erase = e.erase.mapTokens f) :
    Copied distance f e.nodes e'.nodes fun pairing scopes => e.Twin pairing scopes e' := by
  cases e with
  | literal id value =>
      cases e' with
      | literal id' value' =>
          obtain rfl : value' = value := by simpa [Expr.erase, Expr.mapTokens] using h
          exact (Copied.node id id').imp fun node scopes hscopes hid =>
            .literal value' (hid scopes hscopes)
      | _ => simp [Expr.erase, Expr.mapTokens] at h
  | grouping id inner =>
      cases e' with
      | grouping id' inner' =>
          simp only [Expr.erase, Expr.mapTokens, Expr.grouping.injEq, true_and] at h
          refine ((Expr.copied hf inner inner' h).append (.node id id')).imp
            fun node scopes hscopes hparts => ?_
          obtain ⟨hinner, hid⟩ := hparts scopes hscopes
          exact .grouping hid hinner
      | _ => simp [Expr.erase, Expr.mapTokens] at h
  | unary id operator operand =>
      cases e' with
      | unary id' operator' operand' =>
          simp only [Expr.erase, Expr.mapTokens, Expr.unary.injEq, true_and] at h
          obtain ⟨rfl, hoperand⟩ := h
          refine ((Expr.copied hf operand operand' hoperand).append (.node id id')).imp
            fun node scopes hscopes hparts => ?_
          obtain ⟨hoperand, hid⟩ := hparts scopes hscopes
          exact .unary hid (Pairing.copy_same hf operator) hoperand
      | _ => simp [Expr.erase, Expr.mapTokens] at h
  | binary id left operator right =>
      cases e' with
      | binary id' left' operator' right' =>
          simp only [Expr.erase, Expr.mapTokens, Expr.binary.injEq, true_and] at h
          obtain ⟨hleft, rfl, hright⟩ := h
          refine (((Expr.copied hf left left' hleft).append
            (Expr.copied hf right right' hright)).append (.node id id')).imp
              fun node scopes hscopes hparts => ?_
          obtain ⟨⟨hleft, hright⟩, hid⟩ := hparts scopes hscopes
          exact .binary hid hleft (Pairing.copy_same hf operator) hright
      | _ => simp [Expr.erase, Expr.mapTokens] at h
  | logical id left operator right =>
      cases e' with
      | logical id' left' operator' right' =>
          simp only [Expr.erase, Expr.mapTokens, Expr.logical.injEq, true_and] at h
          obtain ⟨hleft, rfl, hright⟩ := h
          refine (((Expr.copied hf left left' hleft).append
            (Expr.copied hf right right' hright)).append (.node id id')).imp
              fun node scopes hscopes hparts => ?_
          obtain ⟨⟨hleft, hright⟩, hid⟩ := hparts scopes hscopes
          exact .logical hid hleft (Pairing.copy_same hf operator) hright
      | _ => simp [Expr.erase, Expr.mapTokens] at h
  | var id name =>
      cases e' with
      | var id' name' =>
          simp only [Expr.erase, Expr.mapTokens, Expr.var.injEq, true_and] at h
          subst h
          exact (Copied.node id id').imp fun node scopes hscopes hid =>
            .var (Pairing.copy_use hf hscopes (hid scopes hscopes) name)
      | _ => simp [Expr.erase, Expr.mapTokens] at h
  | assign id name value =>
      cases e' with
      | assign id' name' value' =>
          simp only [Expr.erase, Expr.mapTokens, Expr.assign.injEq, true_and] at h
          obtain ⟨rfl, hvalue⟩ := h
          refine ((Expr.copied hf value value' hvalue).append (.node id id')).imp
            fun node scopes hscopes hparts => ?_
          obtain ⟨hvalue, hid⟩ := hparts scopes hscopes
          exact .assign (Pairing.copy_use hf hscopes hid name) hvalue
      | _ => simp [Expr.erase, Expr.mapTokens] at h
  | call id callee paren arguments =>
      cases e' with
      | call id' callee' paren' arguments' =>
          simp only [Expr.erase, Expr.mapTokens, Expr.call.injEq, true_and] at h
          obtain ⟨hcallee, rfl, harguments⟩ := h
          refine (((Expr.copied hf callee callee' hcallee).append
            (Expr.copiedAll hf arguments arguments' harguments)).append (.node id id')).imp
              fun node scopes hscopes hparts => ?_
          obtain ⟨⟨hcallee, harguments⟩, hid⟩ := hparts scopes hscopes
          exact .call hid hcallee (Pairing.copy_same hf paren) harguments
      | _ => simp [Expr.erase, Expr.mapTokens] at h
  | get id object name =>
      cases e' with
      | get id' object' name' =>
          simp only [Expr.erase, Expr.mapTokens, Expr.get.injEq, true_and] at h
          obtain ⟨hobject, rfl⟩ := h
          refine ((Expr.copied hf object object' hobject).append (.node id id')).imp
            fun node scopes hscopes hparts => ?_
          obtain ⟨hobject, hid⟩ := hparts scopes hscopes
          exact .get hid hobject (Pairing.copy_same hf name)
      | _ => simp [Expr.erase, Expr.mapTokens] at h
  | set id object name value =>
      cases e' with
      | set id' object' name' value' =>
          simp only [Expr.erase, Expr.mapTokens, Expr.set.injEq, true_and] at h
          obtain ⟨hobject, rfl, hvalue⟩ := h
          refine (((Expr.copied hf object object' hobject).append
            (Expr.copied hf value value' hvalue)).append (.node id id')).imp
              fun node scopes hscopes hparts => ?_
          obtain ⟨⟨hobject, hvalue⟩, hid⟩ := hparts scopes hscopes
          exact .set hid hobject (Pairing.copy_same hf name) hvalue
      | _ => simp [Expr.erase, Expr.mapTokens] at h
  | super_ id keyword method =>
      cases e' with
      | super_ id' keyword' method' =>
          simp only [Expr.erase, Expr.mapTokens, Expr.super_.injEq, true_and] at h
          obtain ⟨rfl, rfl⟩ := h
          exact (Copied.node id id').imp fun node scopes hscopes hid =>
            .super_ (Pairing.copy_use hf hscopes (hid scopes hscopes) keyword)
              (Pairing.copy_same hf method)
      | _ => simp [Expr.erase, Expr.mapTokens] at h
  | this_ id keyword =>
      cases e' with
      | this_ id' keyword' =>
          simp only [Expr.erase, Expr.mapTokens, Expr.this_.injEq, true_and] at h
          subst h
          exact (Copied.node id id').imp fun node scopes hscopes hid =>
            .this_ (Pairing.copy_use hf hscopes (hid scopes hscopes) keyword)
      | _ => simp [Expr.erase, Expr.mapTokens] at h

theorem Expr.copiedAll (hf : Faithful f) (es es' : List Expr)
    (h : Expr.eraseAll es' = Expr.mapTokensAll f (Expr.eraseAll es)) :
    Copied distance f (Expr.nodesAll es) (Expr.nodesAll es') fun pairing scopes =>
      Expr.TwinAll pairing scopes es es' := by
  cases es with
  | nil =>
      cases es' with
      | nil => exact .none fun _ _ => .nil
      | cons e' rest' => simp [Expr.eraseAll, Expr.mapTokensAll] at h
  | cons e rest =>
      cases es' with
      | nil => simp [Expr.eraseAll, Expr.mapTokensAll] at h
      | cons e' rest' =>
          simp only [Expr.eraseAll, Expr.mapTokensAll, List.cons.injEq] at h
          refine ((Expr.copied hf e e' h.1).append (Expr.copiedAll hf rest rest' h.2)).imp
            fun node scopes hscopes hparts => ?_
          obtain ⟨he, hrest⟩ := hparts scopes hscopes
          exact .cons he hrest

end

theorem Expr.copiedOpt (hf : Faithful f) (e e' : Option Expr)
    (h : e'.map Expr.erase = (e.map Expr.erase).map (Expr.mapTokens f)) :
    Copied distance f (Expr.nodesOpt e) (Expr.nodesOpt e') fun pairing scopes =>
      Expr.TwinOpt pairing scopes e e' := by
  cases e with
  | none =>
      cases e' with
      | none => exact .none fun _ _ => .none
      | some e' => simp at h
  | some e =>
      cases e' with
      | none => simp at h
      | some e' =>
          refine (Expr.copied hf e e' (by simpa using h)).imp fun node scopes hscopes he => ?_
          exact .some (he scopes hscopes)

mutual

theorem Stmt.copied (hf : Faithful f) (s s' : Stmt) (h : s'.erase = s.erase.mapTokens f) :
    Copied distance f s.nodes s'.nodes fun pairing scopes => s.Twin pairing scopes s' := by
  cases s with
  | expression value =>
      cases s' with
      | expression value' =>
          simp only [Stmt.erase, Stmt.mapTokens, Stmt.expression.injEq] at h
          exact (Expr.copied hf value value' h).imp fun node scopes hscopes hvalue =>
            .expression (hvalue scopes hscopes)
      | _ => simp [Stmt.erase, Stmt.mapTokens] at h
  | print value =>
      cases s' with
      | print value' =>
          simp only [Stmt.erase, Stmt.mapTokens, Stmt.print.injEq] at h
          exact (Expr.copied hf value value' h).imp fun node scopes hscopes hvalue =>
            .print (hvalue scopes hscopes)
      | _ => simp [Stmt.erase, Stmt.mapTokens] at h
  | var name initializer =>
      cases s' with
      | var name' initializer' =>
          simp only [Stmt.erase, Stmt.mapTokens, Stmt.var.injEq] at h
          obtain ⟨rfl, hinitializer⟩ := h
          exact (Expr.copiedOpt hf initializer initializer' hinitializer).imp
            fun node scopes hscopes hvalue =>
              .var (Pairing.copy_named hf hscopes name) (hvalue scopes hscopes)
      | _ => simp [Stmt.erase, Stmt.mapTokens] at h
  | block body =>
      cases s' with
      | block body' =>
          simp only [Stmt.erase, Stmt.mapTokens, Stmt.block.injEq] at h
          exact (Stmt.copiedAll hf body body' h).imp fun node scopes hscopes hbody =>
            .block rfl (hbody _ hscopes.inside)
      | _ => simp [Stmt.erase, Stmt.mapTokens] at h
  | function declaration =>
      cases s' with
      | function declaration' =>
          simp only [Stmt.erase, Stmt.mapTokens, Stmt.function.injEq] at h
          have hname : declaration'.name = f declaration.name := by
            cases declaration
            cases declaration'
            exact congrArg FunctionDecl.name h
          refine (FunctionDecl.copied hf declaration declaration' h).imp
            fun node scopes hscopes hdeclaration => .function ?_ (hdeclaration scopes hscopes)
          rw [hname]
          exact Pairing.copy_kept hf hscopes declaration.name
      | _ => simp [Stmt.erase, Stmt.mapTokens] at h
  | class_ name superclass methods =>
      cases s' with
      | class_ name' superclass' methods' =>
          simp only [Stmt.erase, Stmt.mapTokens, Stmt.class_.injEq] at h
          obtain ⟨rfl, hsuperclass, hmethods⟩ := h
          refine ((Expr.copiedOpt hf superclass superclass' hsuperclass).append
            (FunctionDecl.copiedAll hf methods methods' hmethods)).imp
              fun node scopes hscopes hparts => ?_
          exact .class_ (Pairing.copy_kept hf hscopes name) (hparts scopes hscopes).1
            (hparts _ (hscopes.methodScopes superclass).inside).2
      | _ => simp [Stmt.erase, Stmt.mapTokens] at h
  | ifThen condition thenBranch =>
      cases s' with
      | ifThen condition' thenBranch' =>
          simp only [Stmt.erase, Stmt.mapTokens, Stmt.ifThen.injEq] at h
          refine ((Expr.copied hf condition condition' h.1).append
            (Stmt.copied hf thenBranch thenBranch' h.2)).imp fun node scopes hscopes hparts => ?_
          obtain ⟨hcondition, hthen⟩ := hparts scopes hscopes
          exact .ifThen hcondition hthen
      | _ => simp [Stmt.erase, Stmt.mapTokens] at h
  | ifElse condition thenBranch elseBranch =>
      cases s' with
      | ifElse condition' thenBranch' elseBranch' =>
          simp only [Stmt.erase, Stmt.mapTokens, Stmt.ifElse.injEq] at h
          obtain ⟨hcondition, hthen, helse⟩ := h
          refine (((Expr.copied hf condition condition' hcondition).append
            (Stmt.copied hf thenBranch thenBranch' hthen)).append
              (Stmt.copied hf elseBranch elseBranch' helse)).imp fun node scopes hscopes hparts => ?_
          obtain ⟨⟨hcondition, hthen⟩, helse⟩ := hparts scopes hscopes
          exact .ifElse hcondition hthen helse
      | _ => simp [Stmt.erase, Stmt.mapTokens] at h
  | while_ condition body =>
      cases s' with
      | while_ condition' body' =>
          simp only [Stmt.erase, Stmt.mapTokens, Stmt.while_.injEq] at h
          refine ((Expr.copied hf condition condition' h.1).append
            (Stmt.copied hf body body' h.2)).imp fun node scopes hscopes hparts => ?_
          obtain ⟨hcondition, hbody⟩ := hparts scopes hscopes
          exact .while_ hcondition hbody
      | _ => simp [Stmt.erase, Stmt.mapTokens] at h
  | return_ keyword value =>
      cases s' with
      | return_ keyword' value' =>
          simp only [Stmt.erase, Stmt.mapTokens, Stmt.return_.injEq] at h
          exact (Expr.copiedOpt hf value value' h.2).imp fun node scopes hscopes hvalue =>
            .return_ keyword keyword' (hvalue scopes hscopes)
      | _ => simp [Stmt.erase, Stmt.mapTokens] at h

/-- A program that is another one up to identities and tokens is a twin of it. -/
theorem Stmt.copiedAll (hf : Faithful f) (statements statements' : List Stmt)
    (h : Stmt.eraseAll statements' = Stmt.mapTokensAll f (Stmt.eraseAll statements)) :
    Copied distance f (Stmt.nodesAll statements) (Stmt.nodesAll statements')
      fun pairing scopes => Stmt.TwinAll pairing scopes statements statements' := by
  cases statements with
  | nil =>
      cases statements' with
      | nil => exact .none fun _ _ => .nil
      | cons s' rest' => simp [Stmt.eraseAll, Stmt.mapTokensAll] at h
  | cons s rest =>
      cases statements' with
      | nil => simp [Stmt.eraseAll, Stmt.mapTokensAll] at h
      | cons s' rest' =>
          simp only [Stmt.eraseAll, Stmt.mapTokensAll, List.cons.injEq] at h
          refine ((Stmt.copied hf s s' h.1).append (Stmt.copiedAll hf rest rest' h.2)).imp
            fun node scopes hscopes hparts => ?_
          obtain ⟨hs, hrest⟩ := hparts scopes hscopes
          exact .cons hs hrest

theorem FunctionDecl.copied (hf : Faithful f) (declaration declaration' : FunctionDecl)
    (h : declaration'.erase = declaration.erase.mapTokens f) :
    Copied distance f declaration.nodes declaration'.nodes
      fun pairing scopes => declaration.Twin pairing scopes declaration' := by
  cases declaration with
  | mk name parameters body =>
      cases declaration' with
      | mk name' parameters' body' =>
          simp only [FunctionDecl.erase, FunctionDecl.mapTokens, FunctionDecl.mk.injEq] at h
          obtain ⟨rfl, rfl, hbody⟩ := h
          refine (Stmt.copiedAll hf body body' hbody).imp fun node scopes hscopes hbody => ?_
          refine .mk rfl (Pairing.copy_same hf name) ?_ (hbody _ hscopes.inside)
          rw [List.forall₂_map_right_iff, List.forall₂_same]
          exact fun parameter _ => Pairing.copy_named hf hscopes.inside parameter

theorem FunctionDecl.copiedAll (hf : Faithful f) (methods methods' : List FunctionDecl)
    (h : FunctionDecl.eraseAll methods' =
      FunctionDecl.mapTokensAll f (FunctionDecl.eraseAll methods)) :
    Copied distance f (FunctionDecl.nodesAll methods) (FunctionDecl.nodesAll methods')
      fun pairing scopes => FunctionDecl.TwinAll pairing scopes methods methods' := by
  cases methods with
  | nil =>
      cases methods' with
      | nil => exact .none fun _ _ => .nil
      | cons method' rest' => simp [FunctionDecl.eraseAll, FunctionDecl.mapTokensAll] at h
  | cons method rest =>
      cases methods' with
      | nil => simp [FunctionDecl.eraseAll, FunctionDecl.mapTokensAll] at h
      | cons method' rest' =>
          simp only [FunctionDecl.eraseAll, FunctionDecl.mapTokensAll, List.cons.injEq] at h
          refine ((FunctionDecl.copied hf method method' h.1).append
            (FunctionDecl.copiedAll hf rest rest' h.2)).imp fun node scopes hscopes hparts => ?_
          obtain ⟨hmethod, hrest⟩ := hparts scopes hscopes
          exact .cons hmethod hrest

end

end

end Lox
