import Lox.Proofs.Scope.Twin
import Lox.Proofs.Syntax.Names
import Mathlib.Logic.Equiv.Basic

/-!
# Renaming a local variable

A local variable or a parameter is given by its scope and its name. It is renamed together with the
uses that the distance table leads to it. In a program without broken rules, and with a name that
occurs nowhere in it, the outcome is a twin of the program.
-/

namespace Lox

open Scope (Distances Frame Place Enclosing ScopeFault)

/-! ## Variables of scopes -/

/-- The variables that statements declare in the scope around them. -/
def Stmt.variables : List Stmt → List String
  | [] => []
  | .var name _ :: rest => name.lexeme :: Stmt.variables rest
  | _ :: rest => Stmt.variables rest

/-- The variables and parameters that a region declares in its scope. -/
def Region.variables : Region → List String
  | block body => Stmt.variables body
  | function declaration =>
      declaration.parameters.map Token.lexeme ++ Stmt.variables declaration.body
  | receiver _ | superclass _ => []

/-! ## Renaming -/

/-- The variable or parameter `old` of the scope to which a way leads, which is to be called
`new`. -/
structure Renaming where
  scope : List Nat
  old : String
  new : String

namespace Renaming

variable (change : Renaming)

/-- Whether this is the scope that declares the variable. -/
def hits (frame : Frame) : Bool :=
  decide (frame.path = change.scope ∧ change.old ∈ frame.region.variables)

/-- The name, renamed if it is one of the scope and that of the variable. -/
def name (frame : Option Frame) (token : Token) : Token :=
  if frame.any change.hits ∧ token.lexeme = change.old then
    { token with lexeme := change.new }
  else token

/-- The name of a use, renamed if the distance of the use leads to the variable. -/
def use (distances : Distances) (place : Place) (id : NodeId) (token : Token) : Token :=
  change.name (distances[id]?.bind fun distance => place.scopes[distance]?) token

/-- A name that is declared at a place. -/
def declared (place : Place) (token : Token) : Token :=
  change.name place.scopes.head? token

end Renaming

section

variable (change : Renaming) (distances : Distances)

mutual

/-- The expression with the variable renamed. -/
def Expr.rename (place : Place) : Expr → Expr
  | .literal id value => .literal id value
  | .grouping id inner => .grouping id (inner.rename place)
  | .unary id operator operand => .unary id operator (operand.rename place)
  | .binary id left operator right => .binary id (left.rename place) operator (right.rename place)
  | .logical id left operator right => .logical id (left.rename place) operator (right.rename place)
  | .var id name => .var id (change.use distances place id name)
  | .assign id name value =>
      .assign id (change.use distances place id name) (value.rename place)
  | .call id callee paren arguments =>
      .call id (callee.rename place) paren (Expr.renameAll place arguments)
  | .get id object name => .get id (object.rename place) name
  | .set id object name value => .set id (object.rename place) name (value.rename place)
  | .super_ id keyword method => .super_ id keyword method
  | .this_ id keyword => .this_ id keyword

/-- The expressions with the variable renamed. -/
def Expr.renameAll (place : Place) : List Expr → List Expr
  | [] => []
  | e :: rest => e.rename place :: Expr.renameAll place rest

end

mutual

/-- The statement with the variable renamed. -/
def Stmt.rename (place : Place) : Stmt → Stmt
  | .expression value => .expression (value.rename change distances place)
  | .print value => .print (value.rename change distances place)
  | .var name initializer =>
      .var (change.declared place name) (initializer.map (Expr.rename change distances place))
  | .block body => .block (Stmt.renameAll (place.enter (.block body) []) body)
  | .function declaration =>
      .function (declaration.rename (place.declare [declaration.name.lexeme]) .function)
  | .class_ name superclass methods =>
      let inside := (place.declare [name.lexeme]).enterClass superclass
      .class_ name (superclass.map (Expr.rename change distances inside))
        (FunctionDecl.renameAll (inside.enterMethods superclass methods) methods)
  | .ifThen condition thenBranch =>
      .ifThen (condition.rename change distances place) (thenBranch.rename (place.branch 0))
  | .ifElse condition thenBranch elseBranch =>
      .ifElse (condition.rename change distances place) (thenBranch.rename (place.branch 0))
        (elseBranch.rename ((place.declare thenBranch.declares).branch 1))
  | .while_ condition body =>
      .while_ (condition.rename change distances place) (body.rename (place.branch 0))
  | .return_ keyword value => .return_ keyword (value.map (Expr.rename change distances place))

/-- The statements with the variable renamed. -/
def Stmt.renameAll (place : Place) : List Stmt → List Stmt
  | [] => []
  | s :: rest => s.rename place :: Stmt.renameAll (place.after s) rest

/-- The function with the variable renamed. -/
def FunctionDecl.rename (place : Place) (form : FunctionDecl → Enclosing) :
    FunctionDecl → FunctionDecl
  | ⟨name, parameters, body⟩ =>
      let inside := place.enterFunction form ⟨name, parameters, body⟩
      ⟨name, parameters.map (change.declared inside),
        Stmt.renameAll (inside.declare (parameters.map Token.lexeme)) body⟩

/-- The methods with the variable renamed. -/
def FunctionDecl.renameAll (place : Place) : List FunctionDecl → List FunctionDecl
  | [] => []
  | method :: rest =>
      method.rename (place.enter (.receiver method) ["this"]) .method ::
        FunctionDecl.renameAll place.next rest

end

/-- The program with the variable renamed. -/
def renameProgram (program : List Stmt) : List Stmt :=
  Stmt.renameAll change distances .top program

end

/-! ## Renamers of scopes -/

/-- The exchange of two names that are no keywords. -/
def Renamer.exchange (old new : String) : Renamer :=
  if h : (old ≠ "this" ∧ old ≠ "super") ∧ new ≠ "this" ∧ new ≠ "super" then
    ⟨Equiv.swap old new, (Equiv.swap old new).injective,
      Equiv.swap_apply_of_ne_of_ne (Ne.symm h.1.1) (Ne.symm h.2.1),
      Equiv.swap_apply_of_ne_of_ne (Ne.symm h.1.2) (Ne.symm h.2.2)⟩
  else .same

theorem Renamer.exchange_of_ne {old new name : String} (hold : name ≠ old) (hnew : name ≠ new) :
    (exchange old new).rename name = name := by
  rw [exchange]
  split
  · exact Equiv.swap_apply_of_ne_of_ne hold hnew
  · rfl

theorem Renamer.exchange_old {old new : String} (hold : ∀ keyword : Keyword, old ≠ keyword.spelling)
    (hnew : ∀ keyword : Keyword, new ≠ keyword.spelling) :
    (exchange old new).rename old = new := by
  rw [exchange, dif_pos ⟨⟨hold .this_, hold .super_⟩, hnew .this_, hnew .super_⟩]
  exact Equiv.swap_apply_left old new

namespace Renaming

variable (change : Renaming)

/-- The renamer of a scope. -/
def renamer (frame : Frame) : Renamer :=
  if change.hits frame then .exchange change.old change.new else .same

/-- The renamers of the scopes around a place. -/
def renamers (place : Place) : List Renamer :=
  place.scopes.map change.renamer

/-- What a program and the renamed one have to do with each other. -/
def pairing (distances : Distances) : Pairing where
  node id id' := id' = id
  matched id id' distance := id' = id ∧ distances[id]? = distance
  token token token' := token'.line = token.line
  renamer r := r = .same ∨ r = .exchange change.old change.new
  name name := name ≠ change.new

theorem renamers_declare (place : Place) (names : List String) :
    change.renamers (place.declare names) = change.renamers place := by
  rw [renamers, renamers, Place.declare]
  cases place.scopes <;> rfl

theorem renamers_after (place : Place) (s : Stmt) :
    change.renamers (place.after s) = change.renamers place :=
  change.renamers_declare place s.declares

theorem renamers_class (place : Place) (name : Token) (superclass : Option Expr) :
    change.renamers ((place.declare [name.lexeme]).enterClass superclass) =
      change.renamers place :=
  change.renamers_declare place [name.lexeme]

theorem renamers_branch (place : Place) (index : Nat) :
    change.renamers (place.branch index) = change.renamers place :=
  rfl

/-- The scopes of `this` and of `super` declare no variables. -/
theorem renamer_of_variables {frame : Frame} (h : frame.region.variables = []) :
    change.renamer frame = .same := by
  simp [renamer, hits, h]

theorem renamers_enterMethods (place : Place) (superclass : Option Expr)
    (methods : List FunctionDecl) :
    change.renamers (place.enterMethods superclass methods) =
      methodScopes superclass (change.renamers place) := by
  rw [Place.enterMethods, methodScopes]
  split
  · exact congrArg (· :: change.renamers place) (change.renamer_of_variables rfl)
  · rfl

theorem renamers_receiver (place : Place) (method : FunctionDecl) :
    change.renamers (place.enter (.receiver method) ["this"]) = .same :: change.renamers place :=
  congrArg (· :: change.renamers place) (change.renamer_of_variables rfl)

theorem renamer_allowed (distances : Distances) (frame : Frame) :
    (change.pairing distances).renamer (change.renamer frame) := by
  rw [renamer]
  split
  · exact .inr rfl
  · exact .inl rfl

theorem innermost_renamers (place : Place) :
    Renamer.innermost (change.renamers place) = place.scopes.head?.elim .same change.renamer := by
  rw [renamers]
  cases place.scopes <;> rfl

theorem atDistance_renamers (place : Place) (distance : Option Nat) :
    Renamer.atDistance (change.renamers place) distance =
      (distance.bind fun distance => place.scopes[distance]?).elim .same change.renamer := by
  cases distance with
  | none => rfl
  | some distance =>
      rw [Renamer.atDistance, renamers, List.getD_eq_getElem?_getD, List.getElem?_map,
        Option.bind_some]
      cases place.scopes[distance]? <;> rfl

theorem line_name (frame : Option Frame) (token : Token) :
    (change.name frame token).line = token.line := by
  rw [name]
  split <;> rfl

end Renaming

/-! ## The renamed program is a twin -/

section

variable {change : Renaming} {distances : Distances}

/-- A name is renamed as its scope is. -/
theorem Renaming.lexeme_name (hnew : ∀ keyword : Keyword, change.new ≠ keyword.spelling)
    {token : Token} (hname : token.Is (Token.Nameable change.new) .identifier)
    (frame : Option Frame) :
    (change.name frame token).lexeme = (frame.elim .same change.renamer).rename token.lexeme := by
  have hspelled := hname.property.spelled.identifier hname.category
  rw [Renaming.name]
  cases frame with
  | none => simp
  | some frame =>
      rw [Option.any_some, Option.elim_some, Renaming.renamer]
      by_cases hhits : change.hits frame = true
      · by_cases hold : token.lexeme = change.old
        · rw [hold] at hspelled ⊢
          rw [if_pos ⟨hhits, rfl⟩, if_pos hhits, Renamer.exchange_old hspelled hnew]
        · rw [if_neg fun h => hold h.2, if_pos hhits,
            Renamer.exchange_of_ne hold hname.property.new]
      · rw [if_neg fun h => hhits h.1, if_neg hhits, Renamer.rename_same]

section

variable (hnew : ∀ keyword : Keyword, change.new ≠ keyword.spelling)

include hnew

theorem Renaming.named {place : Place} {name : Token}
    (hname : name.Is (Token.Nameable change.new) .identifier) :
    (change.pairing distances).Named (.innermost (change.renamers place)) name
      (change.declared place name) := by
  refine ⟨hname.property.new, ?_, change.line_name _ _⟩
  rw [change.innermost_renamers]
  exact change.lexeme_name hnew hname _

theorem Renaming.named_all {frame : Frame} {names : List Token}
    (hnames : Token.NameAll (Token.Nameable change.new) names) :
    List.Forall₂ ((change.pairing distances).Named (change.renamer frame)) names
      (names.map (change.name (some frame))) := by
  rw [List.forall₂_map_right_iff, List.forall₂_same]
  intro name hname
  have hnameable := hnames name hname
  exact ⟨hnameable.property.new, change.lexeme_name hnew hnameable _, change.line_name _ _⟩

theorem Renaming.used {place : Place} {id : NodeId} {name : Token}
    (hname : name.Is (Token.Nameable change.new) .identifier) :
    (change.pairing distances).Use (change.renamers place) id id distances[id]? name
      (change.use distances place id name) := by
  refine ⟨hname.property.new, rfl, ⟨rfl, rfl⟩, ?_, change.line_name _ _⟩
  rw [change.atDistance_renamers]
  exact change.lexeme_name hnew hname _

end

/-- `this` and `super` are used under their own names. -/
theorem Renaming.keyword {place : Place} {id : NodeId} {token : Token} {keyword : Keyword}
    (hkeyword : token.Is (Token.Nameable change.new) (.keyword keyword))
    (hfixed : ∀ r : Renamer, r.rename keyword.spelling = keyword.spelling) :
    (change.pairing distances).Use (change.renamers place) id id distances[id]? token token := by
  have hlexeme := hkeyword.property.spelled.keyword hkeyword.category
  refine ⟨hkeyword.property.new, rfl, ⟨rfl, rfl⟩, ?_, rfl⟩
  rw [hlexeme, hfixed]

theorem Renaming.same (token : Token) : (change.pairing distances).Same token token :=
  ⟨rfl, rfl, rfl⟩

mutual

theorem Expr.rename_twin (hnew : ∀ keyword : Keyword, change.new ≠ keyword.spelling) (place : Place)
    (e : Expr) (hformed : e.Formed (Token.Nameable change.new)) :
    e.Twin (change.pairing distances) (change.renamers place) (e.rename change distances place) := by
  cases e with
  | literal id value => exact .literal value rfl
  | grouping id inner => exact .grouping rfl (Expr.rename_twin hnew place inner hformed)
  | unary id operator operand =>
      exact .unary rfl (Renaming.same _) (Expr.rename_twin hnew place operand hformed.2)
  | binary id left operator right =>
      exact .binary rfl (Expr.rename_twin hnew place left hformed.1) (Renaming.same _)
        (Expr.rename_twin hnew place right hformed.2.2)
  | logical id left operator right =>
      exact .logical rfl (Expr.rename_twin hnew place left hformed.1) (Renaming.same _)
        (Expr.rename_twin hnew place right hformed.2.2)
  | var id name => exact .var (Renaming.used hnew hformed)
  | assign id name value =>
      exact .assign (Renaming.used hnew hformed.1) (Expr.rename_twin hnew place value hformed.2)
  | call id callee paren arguments =>
      exact .call rfl (Expr.rename_twin hnew place callee hformed.1) (Renaming.same _)
        (Expr.renameAll_twin hnew place arguments hformed.2)
  | get id object name =>
      exact .get rfl (Expr.rename_twin hnew place object hformed.1) (Renaming.same _)
  | set id object name value =>
      exact .set rfl (Expr.rename_twin hnew place object hformed.1) (Renaming.same _)
        (Expr.rename_twin hnew place value hformed.2.2)
  | super_ id keyword method =>
      exact .super_ (Renaming.keyword hformed.1 Renamer.super_) (Renaming.same _)
  | this_ id keyword => exact .this_ (Renaming.keyword hformed Renamer.this_)

theorem Expr.renameAll_twin (hnew : ∀ keyword : Keyword, change.new ≠ keyword.spelling)
    (place : Place) (es : List Expr) (hformed : Expr.FormedAll (Token.Nameable change.new) es) :
    Expr.TwinAll (change.pairing distances) (change.renamers place) es
      (Expr.renameAll change distances place es) := by
  cases es with
  | nil => exact .nil
  | cons e rest =>
      exact .cons (Expr.rename_twin hnew place e hformed.1)
        (Expr.renameAll_twin hnew place rest hformed.2)

end

theorem Expr.renameOpt_twin (hnew : ∀ keyword : Keyword, change.new ≠ keyword.spelling)
    (place : Place) (e : Option Expr) (hformed : Expr.FormedOpt (Token.Nameable change.new) e) :
    Expr.TwinOpt (change.pairing distances) (change.renamers place) e
      (e.map (Expr.rename change distances place)) := by
  cases e with
  | none => exact .none
  | some e => exact .some (Expr.rename_twin hnew place e hformed)

/-! Functions and classes keep their names: in a program without broken rules, no other declaration
of the scope has the name of the variable. -/

/-- The variable of the innermost scope is declared already, or by one of the statements. -/
def Renaming.Ahead (change : Renaming) (place : Place) (statements : List Stmt) : Prop :=
  ∀ frame, place.scopes.head? = some frame → change.hits frame = true →
    change.old ∈ frame.names ∨ change.old ∈ Stmt.variables statements

/-- The statement declares no function or class with the name of the variable. -/
def Renaming.Keeps (change : Renaming) (place : Place) : Stmt → Prop
  | .function declaration => change.declared place declaration.name = declaration.name
  | .class_ name _ _ => change.declared place name = name
  | _ => True

theorem Scope.Place.head?_after {place : Place} {frame : Frame}
    (h : place.scopes.head? = some frame) (s : Stmt) :
    (place.after s).scopes.head? = some { frame with names := frame.names ++ s.declares } := by
  rw [Place.after, Place.next, Place.declare]
  cases hscopes : place.scopes with
  | nil => simp [hscopes] at h
  | cons first outer =>
      obtain rfl : first = frame := by simpa [hscopes] using h
      rfl

/-- A variable that is declared although its scope has the name already breaks a rule. -/
theorem Stmt.redeclared {place : Place} {frame : Frame} {name : String} {statements : List Stmt}
    (hframe : place.scopes.head? = some frame) (hname : name ∈ frame.names)
    (hlater : name ∈ Stmt.variables statements) :
    ∃ o ∈ Stmt.sitesAll place statements, ScopeFault.alreadyDeclared.arisesAt o = true := by
  induction statements generalizing place frame with
  | nil => simp [Stmt.variables] at hlater
  | cons s rest ih =>
      rw [Stmt.sitesAll]
      have hrest (h : name ∈ Stmt.variables rest) :
          ∃ o ∈ s.sites place ++ Stmt.sitesAll (place.after s) rest,
            ScopeFault.alreadyDeclared.arisesAt o = true := by
        obtain ⟨o, ho, hfault⟩ :=
          ih (place.head?_after hframe s) (List.mem_append_left _ hname) h
        exact ⟨o, List.mem_append_right _ ho, hfault⟩
      cases s with
      | var token initializer =>
          rcases List.mem_cons.mp hlater with rfl | hlater
          · refine ⟨⟨place, .declaration token⟩, List.mem_append_left _ List.mem_cons_self, ?_⟩
            rw [ScopeFault.arisesAt, Place.hasDeclared]
            cases hscopes : place.scopes with
            | nil => simp [hscopes] at hframe
            | cons first outer =>
                obtain rfl : first = frame := by simpa [hscopes] using hframe
                simpa using hname
          · exact hrest hlater
      | _ => exact hrest hlater

theorem Renaming.Ahead.enter_block (place : Place) (body : List Stmt) :
    change.Ahead (place.enter (.block body) []) body := by
  rintro _ ⟨⟩ hhits
  exact .inr (of_decide_eq_true hhits).2

theorem Renaming.Ahead.enterFunction (place : Place) (form : FunctionDecl → Enclosing) (name : Token)
    (parameters : List Token) (body : List Stmt) :
    change.Ahead ((place.enterFunction form ⟨name, parameters, body⟩).declare
      (parameters.map Token.lexeme)) body := by
  rintro _ ⟨⟩ hhits
  exact List.mem_append.mp (of_decide_eq_true hhits).2

theorem Renaming.Ahead.after {place : Place} {s : Stmt} {rest : List Stmt}
    (h : change.Ahead place (s :: rest)) : change.Ahead (place.after s) rest := by
  intro frame hframe hhits
  cases hscopes : place.scopes with
  | nil => simp [Place.after, Place.next, Place.declare, Place.declareIn, hscopes] at hframe
  | cons first outer =>
      have hfirst : place.scopes.head? = some first := by rw [hscopes, List.head?_cons]
      obtain rfl := Option.some.inj ((place.head?_after hfirst s).symm.trans hframe)
      rcases h first hfirst hhits with hold | hold
      · exact .inl (List.mem_append_left _ hold)
      · cases s with
        | var name initializer =>
            rcases List.mem_cons.mp hold with hold | hold
            · exact .inl (List.mem_append_right _ (by simp [Stmt.declares, hold]))
            · exact .inr hold
        | _ => exact .inr hold

theorem Renaming.declared_eq {place : Place} {name : Token}
    (h : ∀ frame, place.scopes.head? = some frame → change.hits frame = true →
      name.lexeme ≠ change.old) :
    change.declared place name = name := by
  rw [Renaming.declared, Renaming.name]
  cases hhead : place.scopes.head? with
  | none => simp
  | some frame => exact if_neg fun hrenamed => h frame hhead hrenamed.1 hrenamed.2

theorem Renaming.Ahead.keeps {known : List Occurrence}
    (hlawful : ∀ o ∈ known, ScopeFault.alreadyDeclared.arisesAt o = false) {place : Place}
    {s : Stmt} {rest : List Stmt} (h : change.Ahead place (s :: rest))
    (hknown : Stmt.sitesAll place (s :: rest) ⊆ known) : change.Keeps place s := by
  -- The variable is declared neither before the function or class, nor after it.
  have hother {name : Token} (hsite : ⟨place, .declaration name⟩ ∈ s.sites place)
      (hdeclares : s.declares = [name.lexeme])
      (hvariables : Stmt.variables (s :: rest) = Stmt.variables rest) :
      change.declared place name = name := by
    refine Renaming.declared_eq fun frame hframe hhits hname => ?_
    have habsent : name.lexeme ∉ frame.names := by
      have hbreach := hlawful _ (hknown (List.mem_append_left _ hsite))
      rw [ScopeFault.arisesAt, Place.hasDeclared] at hbreach
      cases hscopes : place.scopes with
      | nil => simp [hscopes] at hframe
      | cons first outer =>
          obtain rfl : first = frame := by simpa [hscopes] using hframe
          simpa [hscopes] using hbreach
    have hlater : name.lexeme ∈ Stmt.variables rest := by
      rw [← hvariables]
      rw [hname] at habsent ⊢
      exact (h frame hframe hhits).resolve_left habsent
    obtain ⟨o, ho, hfault⟩ := Stmt.redeclared (place.head?_after hframe s)
      (List.mem_append_right _ (by simp [hdeclares])) hlater
    have hgood := hlawful o (hknown (List.mem_append_right _ ho))
    rw [hgood] at hfault
    cases hfault
  cases s with
  | function declaration => exact hother List.mem_cons_self rfl rfl
  | class_ name superclass methods => exact hother List.mem_cons_self rfl rfl
  | _ => trivial

/-- A branch or the body of a loop is no declaration. -/
theorem Renaming.keeps_of_plain {s : Stmt} (hplain : s.isDeclaration = false) (place : Place) :
    change.Keeps place s := by
  cases s <;> trivial

theorem Renaming.kept (hnew : ∀ keyword : Keyword, change.new ≠ keyword.spelling) {place : Place}
    {name : Token} (hname : name.Is (Token.Nameable change.new) .identifier)
    (hkeeps : change.declared place name = name) :
    (change.pairing distances).Kept (change.renamers place) name name := by
  have hnamed : (change.pairing distances).Named (.innermost (change.renamers place)) name
      (change.declared place name) := Renaming.named hnew hname
  rw [hkeeps] at hnamed
  exact ⟨hnamed.known, Renaming.same name, hnamed.lexeme.symm⟩

theorem FunctionDecl.name_rename (place : Place) (form : FunctionDecl → Enclosing)
    (declaration : FunctionDecl) :
    (declaration.rename change distances place form).name = declaration.name := by
  cases declaration
  rfl

theorem FunctionDecl.named_of_formed {property : Token → Prop} {declaration : FunctionDecl}
    (h : declaration.Formed property) : declaration.name.Is property .identifier := by
  cases declaration
  exact h.1

mutual

theorem Stmt.rename_twin (hnew : ∀ keyword : Keyword, change.new ≠ keyword.spelling)
    {known : List Occurrence}
    (hlawful : ∀ o ∈ known, ScopeFault.alreadyDeclared.arisesAt o = false) (place : Place)
    (s : Stmt) (hformed : s.Formed (Token.Nameable change.new)) (hknown : s.sites place ⊆ known)
    (hkeeps : change.Keeps place s) :
    s.Twin (change.pairing distances) (change.renamers place) (s.rename change distances place) := by
  cases s with
  | expression value => exact .expression (Expr.rename_twin hnew place value hformed)
  | print value => exact .print (Expr.rename_twin hnew place value hformed)
  | var name initializer =>
      exact .var (Renaming.named hnew hformed.1) (Expr.renameOpt_twin hnew place _ hformed.2)
  | block body =>
      exact .block (change.renamer_allowed _ _) (Stmt.renameAll_twin hnew hlawful
        (place.enter (.block body) []) body hformed hknown (.enter_block place body))
  | function declaration =>
      rw [Stmt.sites, List.cons_subset] at hknown
      have hdeclaration := FunctionDecl.rename_twin hnew hlawful
        (place.declare [declaration.name.lexeme]) .function declaration hformed hknown.2
      rw [change.renamers_declare] at hdeclaration
      refine .function ?_ hdeclaration
      rw [FunctionDecl.name_rename]
      exact Renaming.kept hnew (FunctionDecl.named_of_formed hformed) hkeeps
  | class_ name superclass methods =>
      rw [Stmt.sites, List.cons_subset, List.append_subset] at hknown
      have hmethods := FunctionDecl.renameAll_twin hnew hlawful
        (((place.declare [name.lexeme]).enterClass superclass).enterMethods superclass methods)
        methods hformed.2.2 hknown.2.2
      rw [change.renamers_enterMethods, change.renamers_class] at hmethods
      refine .class_ (Renaming.kept hnew hformed.1 hkeeps) ?_ hmethods
      rw [← change.renamers_class place name superclass]
      exact Expr.renameOpt_twin hnew _ superclass hformed.2.1.formed
  | ifThen condition thenBranch =>
      rw [Stmt.sites, List.append_subset] at hknown
      exact .ifThen (Expr.rename_twin hnew place condition hformed.1)
        (Stmt.rename_twin hnew hlawful (place.branch 0) thenBranch hformed.2.2 hknown.2
          (Renaming.keeps_of_plain hformed.2.1 _))
  | ifElse condition thenBranch elseBranch =>
      rw [Stmt.sites, List.append_subset, List.append_subset] at hknown
      obtain ⟨hcondition, hthen, helse⟩ := hformed
      have helseBranch := Stmt.rename_twin hnew hlawful
        ((place.declare thenBranch.declares).branch 1) elseBranch helse.2 hknown.2
        (Renaming.keeps_of_plain helse.1 _)
      rw [change.renamers_branch, change.renamers_declare] at helseBranch
      exact .ifElse (Expr.rename_twin hnew place condition hcondition)
        (Stmt.rename_twin hnew hlawful (place.branch 0) thenBranch hthen.2 hknown.1.2
          (Renaming.keeps_of_plain hthen.1 _))
        helseBranch
  | while_ condition body =>
      rw [Stmt.sites, List.append_subset] at hknown
      exact .while_ (Expr.rename_twin hnew place condition hformed.1)
        (Stmt.rename_twin hnew hlawful (place.branch 0) body hformed.2.2 hknown.2
          (Renaming.keeps_of_plain hformed.2.1 _))
  | return_ keyword value =>
      exact .return_ keyword keyword (Expr.renameOpt_twin hnew place value hformed.2)

theorem Stmt.renameAll_twin (hnew : ∀ keyword : Keyword, change.new ≠ keyword.spelling)
    {known : List Occurrence}
    (hlawful : ∀ o ∈ known, ScopeFault.alreadyDeclared.arisesAt o = false) (place : Place)
    (statements : List Stmt) (hformed : Stmt.FormedAll (Token.Nameable change.new) statements)
    (hknown : Stmt.sitesAll place statements ⊆ known) (hahead : change.Ahead place statements) :
    Stmt.TwinAll (change.pairing distances) (change.renamers place) statements
      (Stmt.renameAll change distances place statements) := by
  cases statements with
  | nil => exact .nil
  | cons s rest =>
      have hkeeps := hahead.keeps hlawful hknown
      rw [Stmt.sitesAll, List.append_subset] at hknown
      have hrest := Stmt.renameAll_twin hnew hlawful (place.after s) rest
        hformed.2 hknown.2 hahead.after
      rw [change.renamers_after] at hrest
      exact .cons (Stmt.rename_twin hnew hlawful place s hformed.1 hknown.1 hkeeps) hrest

theorem FunctionDecl.rename_twin (hnew : ∀ keyword : Keyword, change.new ≠ keyword.spelling)
    {known : List Occurrence}
    (hlawful : ∀ o ∈ known, ScopeFault.alreadyDeclared.arisesAt o = false) (place : Place)
    (form : FunctionDecl → Enclosing) (declaration : FunctionDecl)
    (hformed : declaration.Formed (Token.Nameable change.new))
    (hknown : declaration.sites place form ⊆ known) :
    declaration.Twin (change.pairing distances) (change.renamers place)
      (declaration.rename change distances place form) := by
  cases declaration with
  | mk name parameters body =>
      rw [FunctionDecl.sites, List.append_subset] at hknown
      have hbody := Stmt.renameAll_twin hnew hlawful
        ((place.enterFunction form ⟨name, parameters, body⟩).declare (parameters.map Token.lexeme))
        body hformed.2.2 hknown.2 (.enterFunction place form name parameters body)
      rw [change.renamers_declare] at hbody
      exact .mk (change.renamer_allowed _ _) (Renaming.same name)
        (Renaming.named_all hnew hformed.2.1) hbody

theorem FunctionDecl.renameAll_twin (hnew : ∀ keyword : Keyword, change.new ≠ keyword.spelling)
    {known : List Occurrence}
    (hlawful : ∀ o ∈ known, ScopeFault.alreadyDeclared.arisesAt o = false) (place : Place)
    (methods : List FunctionDecl)
    (hformed : FunctionDecl.FormedAll (Token.Nameable change.new) methods)
    (hknown : FunctionDecl.sitesAll place methods ⊆ known) :
    FunctionDecl.TwinAll (change.pairing distances) (.same :: change.renamers place) methods
      (FunctionDecl.renameAll change distances place methods) := by
  cases methods with
  | nil => exact .nil
  | cons method rest =>
      rw [FunctionDecl.sitesAll, List.append_subset] at hknown
      have hmethod := FunctionDecl.rename_twin hnew hlawful
        (place.enter (.receiver method) ["this"]) .method method hformed.1 hknown.1
      rw [change.renamers_receiver] at hmethod
      exact .cons hmethod
        (FunctionDecl.renameAll_twin hnew hlawful place.next rest hformed.2 hknown.2)

end

theorem renameProgram_twin (hnew : ∀ keyword : Keyword, change.new ≠ keyword.spelling)
    {program : List Stmt} (hformed : Stmt.FormedAll (Token.Nameable change.new) program)
    (hlawful : ∀ o ∈ programSites program, ScopeFault.alreadyDeclared.arisesAt o = false) :
    Stmt.TwinAll (change.pairing distances) [] program
      (renameProgram change distances program) :=
  Stmt.renameAll_twin hnew hlawful .top program hformed (List.Subset.refl _)
    fun _ hframe => by cases hframe

end

/-! ## The renamed program is resolved alike -/

section

variable {change : Renaming} {distances : Distances}

theorem Renamer.exchange_eq_or (old : String) {new name : String} (hnew : name ≠ new) :
    (exchange old new).rename name = name ∨ (exchange old new).rename name = new := by
  by_cases hold : name = old
  · subst hold
    rw [exchange]
    split
    · exact .inr (Equiv.swap_apply_left _ _)
    · exact .inl rfl
  · exact .inl (exchange_of_ne hold hnew)

/-- A renamed name is no other name of the program. -/
theorem Renaming.apart (hnew : ∀ keyword : Keyword, change.new ≠ keyword.spelling) :
    (change.pairing distances).Apart := by
  have hmixed {a b : String} (ha : a ≠ change.new) (hb : b ≠ change.new)
      (heq : a = (Renamer.exchange change.old change.new).rename b) : a = b := by
    rcases Renamer.exchange_eq_or change.old hb with hsame | hchanged
    · exact heq.trans hsame
    · exact (ha (heq.trans hchanged)).elim
  refine ⟨.inl rfl, fun h => hnew .this_ h.symm, fun h => hnew .super_ h.symm, ?_⟩
  rintro r r' (rfl | rfl) (rfl | rfl) a b ha hb heq
  · exact heq
  · exact hmixed ha hb heq
  · exact (hmixed hb ha heq.symm).symm
  · exact Renamer.injective _ heq

theorem Renaming.suits (hnew : ∀ keyword : Keyword, change.new ≠ keyword.spelling)
    {program : List Stmt} (hnodup : (useNodes (programSites program)).Nodup)
    (hresolve : Scope.resolve program = (distances, [])) :
    (change.pairing distances).Suits (programSites program) := by
  refine ⟨change.apart hnew, ?_⟩
  rintro place u hmem id' distance ⟨-, rfl⟩
  exact Scope.matched_of_resolve (congrArg Prod.fst hresolve) hnodup hmem

/-- The renamed program is accepted as the program is, with the same distance for every
expression. -/
theorem resolve_renameProgram (hnew : ∀ keyword : Keyword, change.new ≠ keyword.spelling)
    {program : List Stmt} (hformed : Stmt.FormedAll (Token.Nameable change.new) program)
    (hnodup : (useNodes (programSites program)).Nodup)
    (hresolve : Scope.resolve program = (distances, [])) :
    ∃ distances', Scope.resolve (renameProgram change distances program) = (distances', []) ∧
      ∀ id : NodeId, distances'[id]? = distances[id]? := by
  have hlawful := (Scope.lawful_iff_resolve program).mpr ⟨distances, hresolve⟩
  have htwin : Stmt.TwinAll (change.pairing distances) [] program
      (renameProgram change distances program) :=
    renameProgram_twin hnew hformed fun o ho => hlawful o ho .alreadyDeclared
  have hsites : List.Forall₂ (Occurrence.Twin (change.pairing distances)) (programSites program)
      (programSites (renameProgram change distances program)) :=
    htwin.sitesAll (change.suits hnew hnodup hresolve) (.top _) rfl (List.Subset.refl _)
  obtain ⟨distances', hresolve'⟩ :=
    (Scope.lawful_iff_resolve _).mp (lawful_of_twins hsites hlawful)
  refine ⟨distances', hresolve', fun id => ?_⟩
  have hnodes : useNodes (programSites program) =
      useNodes (programSites (renameProgram change distances program)) := by
    have hsame : List.Forall₂ (fun id id' => id = id') (useNodes (programSites program))
        (useNodes (programSites (renameProgram change distances program))) :=
      (useNodes_twins hsites).imp fun id id' ⟨_, hid, _⟩ => hid.symm
    rwa [List.forall₂_eq_eq_eq] at hsame
  by_cases hmem : id ∈ useNodes (programSites program)
  · obtain ⟨place, u, huse, rfl⟩ := exists_use_of_mem_useNodes hmem
    obtain ⟨place', u', huse', ⟨hid, -⟩, hsame⟩ := exists_use_of_twins hsites huse
    rw [Scope.matched_of_resolve (congrArg Prod.fst hresolve) hnodup huse, ← hsame, ← hid]
    rw [hnodes] at hnodup
    exact Scope.matched_of_resolve (congrArg Prod.fst hresolve') hnodup huse'
  · have hmem' := hmem
    rw [hnodes] at hmem'
    rw [Scope.untouched_of_resolve (congrArg Prod.fst hresolve) hmem,
      Scope.untouched_of_resolve (congrArg Prod.fst hresolve') hmem']

end

end Lox
