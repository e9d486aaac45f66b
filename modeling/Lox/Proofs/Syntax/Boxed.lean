import Lox.Proofs.Syntax.Shape

/-!
# Extra blocks

A statement that is no declaration may be put into a block of its own. `GainsBlock` says that this
was done to one statement of a tree. `Boxed` says it of any number of them, and keeps track of the
scopes around each piece of the two trees, of which some are there in the second one only.
-/

namespace Lox

/-! ## One extra block -/

mutual

/-- The second statement is the first one with one statement put into a block of its own: itself or
one inside it, which is no declaration. -/
inductive Stmt.GainsBlock : Stmt → Stmt → Prop where
  | here {s : Stmt} : s.isDeclaration = false → Stmt.GainsBlock s (.block [s])
  | block {body body' : List Stmt} : Stmt.GainsBlockAll body body' →
      Stmt.GainsBlock (.block body) (.block body')
  | function {declaration declaration' : FunctionDecl} :
      FunctionDecl.GainsBlock declaration declaration' →
        Stmt.GainsBlock (.function declaration) (.function declaration')
  | class_ (name : Token) (superclass : Option Expr) {methods methods' : List FunctionDecl} :
      FunctionDecl.GainsBlockAll methods methods' →
        Stmt.GainsBlock (.class_ name superclass methods) (.class_ name superclass methods')
  | ifThen (condition : Expr) {thenBranch thenBranch' : Stmt} :
      Stmt.GainsBlock thenBranch thenBranch' →
        Stmt.GainsBlock (.ifThen condition thenBranch) (.ifThen condition thenBranch')
  | thenBranch (condition : Expr) {thenBranch thenBranch' : Stmt} (elseBranch : Stmt) :
      Stmt.GainsBlock thenBranch thenBranch' →
        Stmt.GainsBlock (.ifElse condition thenBranch elseBranch)
          (.ifElse condition thenBranch' elseBranch)
  | elseBranch (condition : Expr) (thenBranch : Stmt) {elseBranch elseBranch' : Stmt} :
      Stmt.GainsBlock elseBranch elseBranch' →
        Stmt.GainsBlock (.ifElse condition thenBranch elseBranch)
          (.ifElse condition thenBranch elseBranch')
  | while_ (condition : Expr) {body body' : Stmt} : Stmt.GainsBlock body body' →
      Stmt.GainsBlock (.while_ condition body) (.while_ condition body')

/-- One of the statements is changed so. -/
inductive Stmt.GainsBlockAll : List Stmt → List Stmt → Prop where
  | head {s s' : Stmt} (rest : List Stmt) : Stmt.GainsBlock s s' →
      Stmt.GainsBlockAll (s :: rest) (s' :: rest)
  | tail (s : Stmt) {rest rest' : List Stmt} : Stmt.GainsBlockAll rest rest' →
      Stmt.GainsBlockAll (s :: rest) (s :: rest')

/-- A statement in the body is changed so. -/
inductive FunctionDecl.GainsBlock : FunctionDecl → FunctionDecl → Prop where
  | mk (name : Token) (parameters : List Token) {body body' : List Stmt} :
      Stmt.GainsBlockAll body body' →
        FunctionDecl.GainsBlock ⟨name, parameters, body⟩ ⟨name, parameters, body'⟩

/-- A statement in one of the bodies is changed so. -/
inductive FunctionDecl.GainsBlockAll : List FunctionDecl → List FunctionDecl → Prop where
  | head {d d' : FunctionDecl} (rest : List FunctionDecl) : FunctionDecl.GainsBlock d d' →
      FunctionDecl.GainsBlockAll (d :: rest) (d' :: rest)
  | tail (d : FunctionDecl) {rest rest' : List FunctionDecl} :
      FunctionDecl.GainsBlockAll rest rest' →
        FunctionDecl.GainsBlockAll (d :: rest) (d :: rest')

end

/-! ## Scopes of which some are extra -/

/-- A scope of the second tree: one of both trees, or that of an extra block. -/
inductive Layer where
  | both
  | extra
  deriving DecidableEq

/-- The scopes around a piece of the second tree, the innermost first. -/
abbrev Layers := List Layer

namespace Layers

/-- The innermost scope is one of both trees. -/
def Shared (layers : Layers) : Prop :=
  layers.head? ≠ some .extra

/-- A distance between scopes of the first tree, counted in the second one. -/
def widen : Layers → Nat → Nat
  | [], distance => distance
  | .extra :: layers, distance => widen layers distance + 1
  | .both :: _, 0 => 0
  | .both :: layers, distance + 1 => widen layers distance + 1

theorem shared_nil : Shared [] := nofun

theorem shared_both (layers : Layers) : Shared (.both :: layers) := nofun

theorem Shared.widen_zero {layers : Layers} (h : layers.Shared) : layers.widen 0 = 0 := by
  match layers with
  | [] => rfl
  | .both :: _ => rfl
  | .extra :: _ => exact absurd rfl h

/-- The scopes around the methods of a class. -/
def methods (superclass : Option Expr) (layers : Layers) : Layers :=
  if superclass.isSome then .both :: layers else layers

end Layers

/-! ## Any number of extra blocks -/

/-- What is asked of a tree that is given extra blocks: of its uses, each in some scopes, and of the
statements that are put into blocks. -/
structure Demands where
  use : Layers → Use → Prop
  boxed : Stmt → Prop

/-- Only declarations may not be put into blocks. -/
def Demands.plain : Demands := ⟨fun _ _ => True, fun s => s.isDeclaration = false⟩

section

variable (demands : Demands)

/-- The uses are as they should be. -/
def Demands.Uses (layers : Layers) (uses : List Use) : Prop :=
  ∀ u ∈ uses, demands.use layers u

mutual

/-- The second statement is the first one with extra blocks inside it, and perhaps one around it. -/
inductive Stmt.Boxed : Layers → Stmt → Stmt → Prop where
  | bare {layers : Layers} {s s' : Stmt} : Stmt.BoxedInside layers s s' → Stmt.Boxed layers s s'
  | box {layers : Layers} {s s' : Stmt} : demands.boxed s →
      Stmt.BoxedInside (.extra :: layers) s s' → Stmt.Boxed layers s (.block [s'])

/-- The second statement is the first one with extra blocks inside it. -/
inductive Stmt.BoxedInside : Layers → Stmt → Stmt → Prop where
  | expression {layers : Layers} {value : Expr} : demands.Uses layers value.uses →
      Stmt.BoxedInside layers (.expression value) (.expression value)
  | print {layers : Layers} {value : Expr} : demands.Uses layers value.uses →
      Stmt.BoxedInside layers (.print value) (.print value)
  | var {layers : Layers} (name : Token) {initializer : Option Expr} :
      demands.Uses layers (Expr.usesOpt initializer) →
        Stmt.BoxedInside layers (.var name initializer) (.var name initializer)
  | block {layers : Layers} {body body' : List Stmt} :
      Stmt.BoxedAll (.both :: layers) body body' →
        Stmt.BoxedInside layers (.block body) (.block body')
  | function {layers : Layers} {declaration declaration' : FunctionDecl} :
      FunctionDecl.Boxed layers declaration declaration' →
        Stmt.BoxedInside layers (.function declaration) (.function declaration')
  | class_ {layers : Layers} (name : Token) {superclass : Option Expr}
      {methods methods' : List FunctionDecl} : demands.Uses layers (Expr.usesOpt superclass) →
        FunctionDecl.BoxedAll (.both :: layers.methods superclass) methods methods' →
          Stmt.BoxedInside layers (.class_ name superclass methods)
            (.class_ name superclass methods')
  | ifThen {layers : Layers} {condition : Expr} {thenBranch thenBranch' : Stmt} :
      demands.Uses layers condition.uses → Stmt.Boxed layers thenBranch thenBranch' →
        Stmt.BoxedInside layers (.ifThen condition thenBranch) (.ifThen condition thenBranch')
  | ifElse {layers : Layers} {condition : Expr}
      {thenBranch thenBranch' elseBranch elseBranch' : Stmt} :
      demands.Uses layers condition.uses → Stmt.Boxed layers thenBranch thenBranch' →
        Stmt.Boxed layers elseBranch elseBranch' →
          Stmt.BoxedInside layers (.ifElse condition thenBranch elseBranch)
            (.ifElse condition thenBranch' elseBranch')
  | while_ {layers : Layers} {condition : Expr} {body body' : Stmt} :
      demands.Uses layers condition.uses → Stmt.Boxed layers body body' →
        Stmt.BoxedInside layers (.while_ condition body) (.while_ condition body')
  | return_ {layers : Layers} (keyword : Token) {value : Option Expr} :
      demands.Uses layers (Expr.usesOpt value) →
        Stmt.BoxedInside layers (.return_ keyword value) (.return_ keyword value)

/-- The second statements are the first ones with extra blocks. -/
inductive Stmt.BoxedAll : Layers → List Stmt → List Stmt → Prop where
  | nil {layers : Layers} : Stmt.BoxedAll layers [] []
  | cons {layers : Layers} {s s' : Stmt} {rest rest' : List Stmt} : Stmt.Boxed layers s s' →
      Stmt.BoxedAll layers rest rest' → Stmt.BoxedAll layers (s :: rest) (s' :: rest')

/-- The second function is the first one with extra blocks in its body. -/
inductive FunctionDecl.Boxed : Layers → FunctionDecl → FunctionDecl → Prop where
  | mk {layers : Layers} (name : Token) (parameters : List Token) {body body' : List Stmt} :
      Stmt.BoxedAll (.both :: layers) body body' →
        FunctionDecl.Boxed layers ⟨name, parameters, body⟩ ⟨name, parameters, body'⟩

/-- The second functions are the first ones with extra blocks in their bodies. -/
inductive FunctionDecl.BoxedAll : Layers → List FunctionDecl → List FunctionDecl → Prop where
  | nil {layers : Layers} : FunctionDecl.BoxedAll layers [] []
  | cons {layers : Layers} {d d' : FunctionDecl} {rest rest' : List FunctionDecl} :
      FunctionDecl.Boxed layers d d' → FunctionDecl.BoxedAll layers rest rest' →
        FunctionDecl.BoxedAll layers (d :: rest) (d' :: rest')

end

end

variable {demands : Demands} {layers : Layers}

/-! ## Trees with one extra block or none -/

theorem Demands.uses_plain (layers : Layers) (uses : List Use) : Demands.plain.Uses layers uses :=
  fun _ _ => trivial

mutual

/-- Nothing needs to be put into blocks. -/
theorem Stmt.boxedInside_refl (layers : Layers) (s : Stmt) :
    Stmt.BoxedInside .plain layers s s := by
  cases s with
  | expression value => exact .expression (Demands.uses_plain _ _)
  | print value => exact .print (Demands.uses_plain _ _)
  | var name initializer => exact .var name (Demands.uses_plain _ _)
  | block body => exact .block (Stmt.boxedAll_refl _ body)
  | function declaration => exact .function (FunctionDecl.boxed_refl _ declaration)
  | class_ name superclass methods =>
      exact .class_ name (Demands.uses_plain _ _) (FunctionDecl.boxedAll_refl _ methods)
  | ifThen condition thenBranch =>
      exact .ifThen (Demands.uses_plain _ _) (.bare (Stmt.boxedInside_refl _ thenBranch))
  | ifElse condition thenBranch elseBranch =>
      exact .ifElse (Demands.uses_plain _ _) (.bare (Stmt.boxedInside_refl _ thenBranch))
        (.bare (Stmt.boxedInside_refl _ elseBranch))
  | while_ condition body =>
      exact .while_ (Demands.uses_plain _ _) (.bare (Stmt.boxedInside_refl _ body))
  | return_ keyword value => exact .return_ keyword (Demands.uses_plain _ _)

theorem Stmt.boxedAll_refl (layers : Layers) (statements : List Stmt) :
    Stmt.BoxedAll .plain layers statements statements := by
  cases statements with
  | nil => exact .nil
  | cons s rest => exact .cons (.bare (Stmt.boxedInside_refl _ s)) (Stmt.boxedAll_refl _ rest)

theorem FunctionDecl.boxed_refl (layers : Layers) (declaration : FunctionDecl) :
    FunctionDecl.Boxed .plain layers declaration declaration := by
  cases declaration with
  | mk name parameters body => exact .mk name parameters (Stmt.boxedAll_refl _ body)

theorem FunctionDecl.boxedAll_refl (layers : Layers) (methods : List FunctionDecl) :
    FunctionDecl.BoxedAll .plain layers methods methods := by
  cases methods with
  | nil => exact .nil
  | cons d rest => exact .cons (FunctionDecl.boxed_refl _ d) (FunctionDecl.boxedAll_refl _ rest)

end

mutual

/-- A tree with one extra block has extra blocks. -/
theorem Stmt.GainsBlock.boxed {s s' : Stmt} (h : s.GainsBlock s') (layers : Layers) :
    Stmt.Boxed .plain layers s s' := by
  cases h with
  | here hplain => exact .box hplain (Stmt.boxedInside_refl _ s)
  | block hbody => exact .bare (.block (hbody.boxedAll _))
  | function hdeclaration => exact .bare (.function (hdeclaration.boxed _))
  | class_ name superclass hmethods =>
      exact .bare (.class_ name (Demands.uses_plain _ _) (hmethods.boxedAll _))
  | ifThen condition hthen => exact .bare (.ifThen (Demands.uses_plain _ _) (hthen.boxed _))
  | thenBranch condition elseBranch hthen =>
      exact .bare (.ifElse (Demands.uses_plain _ _) (hthen.boxed _)
        (.bare (Stmt.boxedInside_refl _ elseBranch)))
  | elseBranch condition thenBranch helse =>
      exact .bare (.ifElse (Demands.uses_plain _ _) (.bare (Stmt.boxedInside_refl _ thenBranch))
        (helse.boxed _))
  | while_ condition hbody => exact .bare (.while_ (Demands.uses_plain _ _) (hbody.boxed _))

theorem Stmt.GainsBlockAll.boxedAll {statements statements' : List Stmt}
    (h : Stmt.GainsBlockAll statements statements') (layers : Layers) :
    Stmt.BoxedAll .plain layers statements statements' := by
  cases h with
  | head rest hs => exact .cons (hs.boxed _) (Stmt.boxedAll_refl _ rest)
  | tail s hrest => exact .cons (.bare (Stmt.boxedInside_refl _ s)) (hrest.boxedAll _)

theorem FunctionDecl.GainsBlock.boxed {declaration declaration' : FunctionDecl}
    (h : declaration.GainsBlock declaration') (layers : Layers) :
    FunctionDecl.Boxed .plain layers declaration declaration' := by
  cases h with
  | mk name parameters hbody => exact .mk name parameters (hbody.boxedAll _)

theorem FunctionDecl.GainsBlockAll.boxedAll {methods methods' : List FunctionDecl}
    (h : FunctionDecl.GainsBlockAll methods methods') (layers : Layers) :
    FunctionDecl.BoxedAll .plain layers methods methods' := by
  cases h with
  | head rest hd => exact .cons (hd.boxed _) (FunctionDecl.boxedAll_refl _ rest)
  | tail d hrest => exact .cons (FunctionDecl.boxed_refl _ d) (hrest.boxedAll _)

end

/-! ## The shape of a tree with extra blocks -/

theorem Stmt.BoxedInside.isDeclaration {s s' : Stmt} (h : Stmt.BoxedInside demands layers s s') :
    s'.isDeclaration = s.isDeclaration := by
  cases h <;> rfl

theorem Stmt.Boxed.isDeclaration {s s' : Stmt} (h : Stmt.Boxed demands layers s s')
    (hplain : s.isDeclaration = false) : s'.isDeclaration = false := by
  cases h with
  | bare hinside => rw [hinside.isDeclaration, hplain]
  | box _ _ => rfl

section

variable {property : Token → Prop}

mutual

theorem Stmt.Boxed.formed {layers : Layers} {s s' : Stmt} (h : Stmt.Boxed demands layers s s')
    (hformed : s.Formed property) : s'.Formed property := by
  cases h with
  | bare hinside => exact hinside.formed hformed
  | box _ hinside => exact ⟨hinside.formed hformed, trivial⟩

/-- Extra blocks do not change the shape of a tree. -/
theorem Stmt.BoxedInside.formed {layers : Layers} {s s' : Stmt}
    (h : Stmt.BoxedInside demands layers s s') (hformed : s.Formed property) :
    s'.Formed property := by
  cases h with
  | expression _ => exact hformed
  | print _ => exact hformed
  | var name _ => exact hformed
  | block hbody => exact hbody.formed hformed
  | function hdeclaration => exact hdeclaration.formed hformed
  | class_ name _ hmethods =>
      exact ⟨hformed.1, hformed.2.1, hmethods.formed hformed.2.2⟩
  | ifThen _ hthen =>
      obtain ⟨hcondition, hplain, hformed⟩ := hformed
      exact ⟨hcondition, hthen.isDeclaration hplain, hthen.formed hformed⟩
  | ifElse _ hthen helse =>
      obtain ⟨hcondition, ⟨hplain, hformed⟩, hplain', hformed'⟩ := hformed
      exact ⟨hcondition, ⟨hthen.isDeclaration hplain, hthen.formed hformed⟩,
        helse.isDeclaration hplain', helse.formed hformed'⟩
  | while_ _ hbody =>
      obtain ⟨hcondition, hplain, hformed⟩ := hformed
      exact ⟨hcondition, hbody.isDeclaration hplain, hbody.formed hformed⟩
  | return_ keyword _ => exact hformed

theorem Stmt.BoxedAll.formed {layers : Layers} {statements statements' : List Stmt}
    (h : Stmt.BoxedAll demands layers statements statements')
    (hformed : Stmt.FormedAll property statements) : Stmt.FormedAll property statements' := by
  cases h with
  | nil => exact trivial
  | cons hs hrest => exact ⟨hs.formed hformed.1, hrest.formed hformed.2⟩

theorem FunctionDecl.Boxed.formed {layers : Layers} {declaration declaration' : FunctionDecl}
    (h : FunctionDecl.Boxed demands layers declaration declaration')
    (hformed : declaration.Formed property) : declaration'.Formed property := by
  cases h with
  | mk name parameters hbody => exact ⟨hformed.1, hformed.2.1, hbody.formed hformed.2.2⟩

theorem FunctionDecl.BoxedAll.formed {layers : Layers} {methods methods' : List FunctionDecl}
    (h : FunctionDecl.BoxedAll demands layers methods methods')
    (hformed : FunctionDecl.FormedAll property methods) :
    FunctionDecl.FormedAll property methods' := by
  cases h with
  | nil => exact trivial
  | cons hd hrest => exact ⟨hd.formed hformed.1, hrest.formed hformed.2⟩

end

/-- Extra blocks do not change what is declared. -/
theorem Stmt.Boxed.declares {s s' : Stmt} (h : Stmt.Boxed demands layers s s')
    (hboxed : ∀ s, demands.boxed s → s.isDeclaration = false) (hformed : s.Formed property) :
    s'.declares = s.declares := by
  have hformed' := h.formed hformed
  cases hplain : s.isDeclaration with
  | false =>
      rw [hformed.declares_eq_nil hplain, hformed'.declares_eq_nil (h.isDeclaration hplain)]
  | true =>
      cases h with
      | box hbox _ =>
          rw [hboxed s hbox] at hplain
          cases hplain
      | bare hinside =>
          cases hinside with
          | var name _ => rfl
          | function hdeclaration =>
              cases hdeclaration
              rfl
          | class_ name _ _ => rfl
          | _ => cases hplain

end

/-! ## Functions with extra blocks -/

namespace FunctionDecl.Boxed

variable {declaration declaration' : FunctionDecl}

theorem name (h : FunctionDecl.Boxed demands layers declaration declaration') :
    declaration'.name = declaration.name := by
  cases h
  rfl

theorem parameters (h : FunctionDecl.Boxed demands layers declaration declaration') :
    declaration'.parameters = declaration.parameters := by
  cases h
  rfl

theorem body (h : FunctionDecl.Boxed demands layers declaration declaration') :
    Stmt.BoxedAll demands (.both :: layers) declaration.body declaration'.body := by
  cases h with
  | mk name parameters hbody => exact hbody

theorem isInitializer (h : FunctionDecl.Boxed demands layers declaration declaration') :
    declaration'.isInitializer = declaration.isInitializer := by
  rw [FunctionDecl.isInitializer, FunctionDecl.isInitializer, h.name]

end FunctionDecl.Boxed

end Lox
