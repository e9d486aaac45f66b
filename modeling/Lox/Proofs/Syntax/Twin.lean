import Lox.Proofs.Syntax.Nodes

/-!
# Twins

Two trees are twins if they have one shape and differ only in the identities of their expressions,
in what their tokens point at, and in the names of variables, which are changed scope by scope.
-/

namespace Lox

/-! ## Changes of names -/

/-- A change of the names of one scope. Different names stay different, and `this` and `super` stay
what they are. -/
structure Renamer where
  rename : String → String
  injective : Function.Injective rename
  this_ : rename "this" = "this"
  super_ : rename "super" = "super"

namespace Renamer

/-- The renamer that leaves every name as it is. -/
def same : Renamer := ⟨id, Function.injective_id, rfl, rfl⟩

@[simp] theorem rename_same (name : String) : same.rename name = name := rfl

/-- The renamer of the innermost scope. The global scope keeps its names. -/
def innermost (scopes : List Renamer) : Renamer :=
  scopes.headD same

/-- The renamer of the scope at a distance, and of the global scope if there is none. -/
def atDistance (scopes : List Renamer) : Option Nat → Renamer
  | none => same
  | some distance => scopes.getD distance same

end Renamer

/-- What the pieces of twins have to do with each other: which expressions go together, which uses
do and at which distance, which tokens do, how a scope may be renamed, and which names the first
tree has. -/
structure Pairing where
  node : NodeId → NodeId → Prop
  matched : NodeId → NodeId → Option Nat → Prop
  token : Token → Token → Prop
  renamer : Renamer → Prop
  name : String → Prop

namespace Pairing

variable (pairing : Pairing)

/-- Tokens that say the same. -/
structure Same (token token' : Token) : Prop where
  category : token'.category = token.category
  lexeme : token'.lexeme = token.lexeme
  token : pairing.token token token'

/-- Names that a scope declares. -/
structure Named (renamer : Renamer) (name name' : Token) : Prop where
  known : pairing.name name.lexeme
  lexeme : name'.lexeme = renamer.rename name.lexeme
  token : pairing.token name name'

/-- Names of functions and classes, which are shown when a value is printed and so stay as they
are. -/
structure Kept (scopes : List Renamer) (name name' : Token) : Prop where
  known : pairing.name name.lexeme
  same : pairing.Same name name'
  fixed : (Renamer.innermost scopes).rename name.lexeme = name.lexeme

/-- Uses of one variable. -/
structure Use (scopes : List Renamer) (id id' : NodeId) (distance : Option Nat)
    (name name' : Token) : Prop where
  known : pairing.name name.lexeme
  node : pairing.node id id'
  matched : pairing.matched id id' distance
  lexeme : name'.lexeme = (Renamer.atDistance scopes distance).rename name.lexeme
  token : pairing.token name name'

end Pairing

/-! ## Trees -/

mutual

/-- Expressions that are twins inside scopes with these renamers. -/
inductive Expr.Twin (pairing : Pairing) (scopes : List Renamer) : Expr → Expr → Prop where
  | literal {id id' : NodeId} (value : Literal) : pairing.node id id' →
      Twin pairing scopes (.literal id value) (.literal id' value)
  | grouping {id id' : NodeId} {inner inner' : Expr} : pairing.node id id' →
      Twin pairing scopes inner inner' →
        Twin pairing scopes (.grouping id inner) (.grouping id' inner')
  | unary {id id' : NodeId} {operator operator' : Token} {operand operand' : Expr} :
      pairing.node id id' → pairing.Same operator operator' →
        Twin pairing scopes operand operand' →
          Twin pairing scopes (.unary id operator operand) (.unary id' operator' operand')
  | binary {id id' : NodeId} {left left' : Expr} {operator operator' : Token}
      {right right' : Expr} :
      pairing.node id id' → Twin pairing scopes left left' → pairing.Same operator operator' →
        Twin pairing scopes right right' →
          Twin pairing scopes (.binary id left operator right) (.binary id' left' operator' right')
  | logical {id id' : NodeId} {left left' : Expr} {operator operator' : Token}
      {right right' : Expr} :
      pairing.node id id' → Twin pairing scopes left left' → pairing.Same operator operator' →
        Twin pairing scopes right right' →
          Twin pairing scopes (.logical id left operator right)
            (.logical id' left' operator' right')
  | var {id id' : NodeId} {distance : Option Nat} {name name' : Token} :
      pairing.Use scopes id id' distance name name' →
        Twin pairing scopes (.var id name) (.var id' name')
  | assign {id id' : NodeId} {distance : Option Nat} {name name' : Token} {value value' : Expr} :
      pairing.Use scopes id id' distance name name' → Twin pairing scopes value value' →
        Twin pairing scopes (.assign id name value) (.assign id' name' value')
  | call {id id' : NodeId} {callee callee' : Expr} {paren paren' : Token}
      {arguments arguments' : List Expr} :
      pairing.node id id' → Twin pairing scopes callee callee' → pairing.Same paren paren' →
        TwinAll pairing scopes arguments arguments' →
          Twin pairing scopes (.call id callee paren arguments)
            (.call id' callee' paren' arguments')
  | get {id id' : NodeId} {object object' : Expr} {name name' : Token} :
      pairing.node id id' → Twin pairing scopes object object' → pairing.Same name name' →
        Twin pairing scopes (.get id object name) (.get id' object' name')
  | set {id id' : NodeId} {object object' : Expr} {name name' : Token} {value value' : Expr} :
      pairing.node id id' → Twin pairing scopes object object' → pairing.Same name name' →
        Twin pairing scopes value value' →
          Twin pairing scopes (.set id object name value) (.set id' object' name' value')
  | super_ {id id' : NodeId} {distance : Option Nat} {keyword keyword' method method' : Token} :
      pairing.Use scopes id id' distance keyword keyword' → pairing.Same method method' →
        Twin pairing scopes (.super_ id keyword method) (.super_ id' keyword' method')
  | this_ {id id' : NodeId} {distance : Option Nat} {keyword keyword' : Token} :
      pairing.Use scopes id id' distance keyword keyword' →
        Twin pairing scopes (.this_ id keyword) (.this_ id' keyword')

/-- Lists of expressions that are twins one by one. -/
inductive Expr.TwinAll (pairing : Pairing) (scopes : List Renamer) :
    List Expr → List Expr → Prop where
  | nil : TwinAll pairing scopes [] []
  | cons {e e' : Expr} {rest rest' : List Expr} : Twin pairing scopes e e' →
      TwinAll pairing scopes rest rest' → TwinAll pairing scopes (e :: rest) (e' :: rest')

end

/-- Expressions that are both missing or are twins. -/
inductive Expr.TwinOpt (pairing : Pairing) (scopes : List Renamer) :
    Option Expr → Option Expr → Prop where
  | none : TwinOpt pairing scopes none none
  | some {e e' : Expr} : e.Twin pairing scopes e' → TwinOpt pairing scopes (some e) (some e')

/-- The scopes around the methods of a class. That of `super` declares nothing else. -/
def methodScopes (superclass : Option Expr) (scopes : List Renamer) : List Renamer :=
  if superclass.isSome then .same :: scopes else scopes

mutual

/-- Statements that are twins inside scopes with these renamers. A block has a renamer of its
own. -/
inductive Stmt.Twin (pairing : Pairing) : List Renamer → Stmt → Stmt → Prop where
  | expression {scopes : List Renamer} {value value' : Expr} : value.Twin pairing scopes value' →
      Stmt.Twin pairing scopes (.expression value) (.expression value')
  | print {scopes : List Renamer} {value value' : Expr} : value.Twin pairing scopes value' →
      Stmt.Twin pairing scopes (.print value) (.print value')
  | var {scopes : List Renamer} {name name' : Token} {initializer initializer' : Option Expr} :
      pairing.Named (.innermost scopes) name name' →
        Expr.TwinOpt pairing scopes initializer initializer' →
          Stmt.Twin pairing scopes (.var name initializer) (.var name' initializer')
  | block {scopes : List Renamer} {renamer : Renamer} {body body' : List Stmt} :
      pairing.renamer renamer → Stmt.TwinAll pairing (renamer :: scopes) body body' →
        Stmt.Twin pairing scopes (.block body) (.block body')
  | function {scopes : List Renamer} {declaration declaration' : FunctionDecl} :
      pairing.Kept scopes declaration.name declaration'.name →
        FunctionDecl.Twin pairing scopes declaration declaration' →
          Stmt.Twin pairing scopes (.function declaration) (.function declaration')
  | class_ {scopes : List Renamer} {name name' : Token} {superclass superclass' : Option Expr}
      {methods methods' : List FunctionDecl} :
      pairing.Kept scopes name name' → Expr.TwinOpt pairing scopes superclass superclass' →
        FunctionDecl.TwinAll pairing (.same :: methodScopes superclass scopes) methods methods' →
          Stmt.Twin pairing scopes (.class_ name superclass methods)
            (.class_ name' superclass' methods')
  | ifThen {scopes : List Renamer} {condition condition' : Expr} {thenBranch thenBranch' : Stmt} :
      condition.Twin pairing scopes condition' → Stmt.Twin pairing scopes thenBranch thenBranch' →
        Stmt.Twin pairing scopes (.ifThen condition thenBranch) (.ifThen condition' thenBranch')
  | ifElse {scopes : List Renamer} {condition condition' : Expr}
      {thenBranch thenBranch' elseBranch elseBranch' : Stmt} :
      condition.Twin pairing scopes condition' → Stmt.Twin pairing scopes thenBranch thenBranch' →
        Stmt.Twin pairing scopes elseBranch elseBranch' →
          Stmt.Twin pairing scopes (.ifElse condition thenBranch elseBranch)
            (.ifElse condition' thenBranch' elseBranch')
  | while_ {scopes : List Renamer} {condition condition' : Expr} {body body' : Stmt} :
      condition.Twin pairing scopes condition' → Stmt.Twin pairing scopes body body' →
        Stmt.Twin pairing scopes (.while_ condition body) (.while_ condition' body')
  | return_ {scopes : List Renamer} (keyword keyword' : Token) {value value' : Option Expr} :
      Expr.TwinOpt pairing scopes value value' →
        Stmt.Twin pairing scopes (.return_ keyword value) (.return_ keyword' value')

/-- Lists of statements that are twins one by one. -/
inductive Stmt.TwinAll (pairing : Pairing) : List Renamer → List Stmt → List Stmt → Prop where
  | nil {scopes : List Renamer} : Stmt.TwinAll pairing scopes [] []
  | cons {scopes : List Renamer} {s s' : Stmt} {rest rest' : List Stmt} :
      Stmt.Twin pairing scopes s s' → Stmt.TwinAll pairing scopes rest rest' →
        Stmt.TwinAll pairing scopes (s :: rest) (s' :: rest')

/-- Functions that are twins: the parameters and the body have a renamer of their own. -/
inductive FunctionDecl.Twin (pairing : Pairing) :
    List Renamer → FunctionDecl → FunctionDecl → Prop where
  | mk {scopes : List Renamer} {renamer : Renamer} {name name' : Token}
      {parameters parameters' : List Token} {body body' : List Stmt} :
      pairing.renamer renamer → pairing.Same name name' →
        List.Forall₂ (pairing.Named renamer) parameters parameters' →
          Stmt.TwinAll pairing (renamer :: scopes) body body' →
            FunctionDecl.Twin pairing scopes ⟨name, parameters, body⟩
              ⟨name', parameters', body'⟩

/-- Lists of functions that are twins one by one. -/
inductive FunctionDecl.TwinAll (pairing : Pairing) :
    List Renamer → List FunctionDecl → List FunctionDecl → Prop where
  | nil {scopes : List Renamer} : FunctionDecl.TwinAll pairing scopes [] []
  | cons {scopes : List Renamer} {d d' : FunctionDecl} {rest rest' : List FunctionDecl} :
      FunctionDecl.Twin pairing scopes d d' → FunctionDecl.TwinAll pairing scopes rest rest' →
        FunctionDecl.TwinAll pairing scopes (d :: rest) (d' :: rest')

end

/-! ## What twins have in common -/

variable {pairing : Pairing} {scopes : List Renamer}

theorem Expr.TwinOpt.isSome_eq {e e' : Option Expr} (h : Expr.TwinOpt pairing scopes e e') :
    e'.isSome = e.isSome := by
  cases h <;> rfl

namespace FunctionDecl.Twin

variable {declaration declaration' : FunctionDecl}

theorem name (h : declaration.Twin pairing scopes declaration') :
    pairing.Same declaration.name declaration'.name := by
  cases h with
  | mk _ hname _ _ => exact hname

theorem isInitializer (h : declaration.Twin pairing scopes declaration') :
    declaration'.isInitializer = declaration.isInitializer := by
  rw [FunctionDecl.isInitializer, FunctionDecl.isInitializer, h.name.lexeme]

theorem arity (h : declaration.Twin pairing scopes declaration') :
    declaration'.parameters.length = declaration.parameters.length := by
  cases h with
  | mk _ _ hparameters _ => exact hparameters.length_eq.symm

end FunctionDecl.Twin

end Lox
