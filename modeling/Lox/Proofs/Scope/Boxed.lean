import Lox.Proofs.Scope.Framing
import Lox.Proofs.Scope.Twin
import Lox.Proofs.Syntax.Boxed

/-!
# Scopes of extra blocks

A program with extra blocks has the sites of the program, in the scopes of the program and further
ones that declare nothing. It breaks no rule that the program does not break, and every use is
matched with the same scope, at a distance that counts the extra scopes in between.
-/

namespace Lox

open Scope (Distances Frame Framed Place Enclosing ScopeFault)

variable {layers : Layers}

namespace Scope

/-! ## Places among extra scopes -/

/-- The scopes of a place and those of its counterpart. What the extra ones hold is nothing. -/
inductive BoxedFrames : Layers → List Frame → List Frame → Prop where
  | nil : BoxedFrames [] [] []
  | both {layers : Layers} {frame frame' : Frame} {frames frames' : List Frame} :
      frame'.names = frame.names → BoxedFrames layers frames frames' →
        BoxedFrames (.both :: layers) (frame :: frames) (frame' :: frames')
  | extra {layers : Layers} {frame : Frame} {frames frames' : List Frame} : frame.names = [] →
      BoxedFrames layers frames frames' → BoxedFrames (.extra :: layers) frames (frame :: frames')

namespace BoxedFrames

variable {frames frames' : List Frame}

/-- Names are declared in a scope of both, if there are any. -/
theorem declare (h : BoxedFrames layers frames frames') {names : List String}
    (hshared : names ≠ [] → layers.Shared) :
    BoxedFrames layers (Place.declareIn names frames) (Place.declareIn names frames') := by
  cases h with
  | nil => exact .nil
  | both hnames hrest => exact .both (congrArg (· ++ names) hnames) hrest
  | @extra layers frame frames frames' hnames hrest =>
      have hnone : names = [] := by
        by_contra hsome
        exact hshared hsome rfl
      subst hnone
      have hsame : Place.declareIn [] frames = frames := by
        cases frames <;> simp [Place.declareIn]
      rw [hsame]
      exact .extra (by simp [hnames]) hrest

/-- A name is found in the same scope, further out by the extra ones in between. -/
theorem findIdx? (h : BoxedFrames layers frames frames') (name : String) :
    (frames'.findIdx? fun frame => decide (name ∈ frame.names)) =
      (frames.findIdx? fun frame => decide (name ∈ frame.names)).map layers.widen := by
  induction h with
  | nil => rfl
  | both hnames _ ih =>
      simp only [List.findIdx?_cons, hnames, ih]
      split
      · rfl
      · rw [Option.map_map, Option.map_map]
        rfl
  | extra hnames _ ih =>
      simp only [List.findIdx?_cons, hnames, List.not_mem_nil, decide_false, Bool.false_eq_true,
        if_false, ih]
      rw [Option.map_map]
      rfl

end BoxedFrames

/-- A place and its counterpart among extra scopes. The way to them does not count. -/
structure Place.Boxed (layers : Layers) (place place' : Place) : Prop where
  frames : BoxedFrames layers place.scopes place'.scopes
  functions : List.Forall₂ Enclosing.Twin place.functions place'.functions
  classes : place'.classes = place.classes
  initializing : place'.initializing = place.initializing
  shared : place.initializing ≠ none → layers.Shared

namespace Place.Boxed

variable {place place' : Place}

theorem top : Place.top.Boxed [] .top :=
  ⟨.nil, .nil, rfl, rfl, fun h => absurd rfl h⟩

/-- The way to a place does not count. -/
theorem moved (h : place.Boxed layers place') (path path' : List Nat) :
    Place.Boxed layers { place with path := path } { place' with path := path' } :=
  ⟨h.frames, h.functions, h.classes, h.initializing, h.shared⟩

theorem branch (h : place.Boxed layers place') (index : Nat) :
    (place.branch index).Boxed layers (place'.branch index) :=
  h.moved _ _

theorem next (h : place.Boxed layers place') : place.next.Boxed layers place'.next :=
  h.moved _ _

theorem declare (h : place.Boxed layers place') {names : List String}
    (hshared : names ≠ [] → layers.Shared) :
    (place.declare names).Boxed layers (place'.declare names) :=
  ⟨h.frames.declare hshared, h.functions, h.classes, h.initializing, h.shared⟩

/-- One more name is declared. -/
theorem declareName (h : place.Boxed layers place') (hshared : layers.Shared) (name : String) :
    (place.declare [name]).Boxed layers (place'.declare [name]) :=
  h.declare fun _ => hshared

section

variable (hidle : place.initializing = none)

include hidle

theorem enter (h : place.Boxed layers place') (region region' : Region) (names : List String) :
    (place.enter region names).Boxed (.both :: layers) (place'.enter region' names) :=
  ⟨.both rfl h.frames, h.functions, h.classes, h.initializing, fun hsome => absurd hidle hsome⟩

/-- The counterpart enters an extra block. -/
theorem enterExtra (h : place.Boxed layers place') (region : Region) :
    place.Boxed (.extra :: layers) (place'.enter region []) :=
  ⟨.extra rfl h.frames, h.functions, h.classes, h.initializing, fun hsome => absurd hidle hsome⟩

theorem enterFunction (h : place.Boxed layers place') {form : FunctionDecl → Enclosing}
    {declaration declaration' : FunctionDecl}
    (hform : (form declaration).Twin (form declaration')) :
    (place.enterFunction form declaration).Boxed (.both :: layers)
      (place'.enterFunction form declaration') :=
  have hinside := h.enter hidle (.function declaration) (.function declaration') []
  ⟨hinside.frames, .cons hform h.functions, hinside.classes, hinside.initializing, hinside.shared⟩

theorem enterMethods (h : place.Boxed layers place') (superclass : Option Expr)
    (methods methods' : List FunctionDecl) :
    (place.enterMethods superclass methods).Boxed (layers.methods superclass)
      (place'.enterMethods superclass methods') := by
  rw [Place.enterMethods, Place.enterMethods, Layers.methods]
  split
  · exact h.enter hidle _ _ _
  · exact h.branch 0

end

theorem enterClass (h : place.Boxed layers place') (superclass : Option Expr) :
    (place.enterClass superclass).Boxed layers (place'.enterClass superclass) :=
  ⟨h.frames, h.functions, congrArg (superclass :: ·) h.classes, h.initializing, h.shared⟩

theorem initializerOf (h : place.Boxed layers place') (hshared : layers.Shared) (name : String) :
    (place.initializerOf name).Boxed layers (place'.initializerOf name) := by
  have hempty : place'.scopes.isEmpty = place.scopes.isEmpty := by
    have hframes := h.frames
    generalize place.scopes = frames at hframes ⊢
    generalize place'.scopes = frames' at hframes ⊢
    cases hframes with
    | nil => rfl
    | both _ _ => rfl
    | extra _ _ => exact absurd rfl hshared
  rw [Place.initializerOf, Place.initializerOf, hempty]
  split
  · exact h
  · exact ⟨h.frames, h.functions, h.classes, rfl, fun _ => hshared⟩

/-! ## Distances -/

/-- A name is found at a distance that counts the extra scopes in between. -/
theorem distance? (h : place.Boxed layers place') (name : String) :
    place'.distance? name = (place.distance? name).map layers.widen := by
  simp only [Place.distance?, h.initializing]
  split
  · next hname =>
      have hshared := h.shared (by simp [hname])
      rw [Option.map_some, hshared.widen_zero]
  · exact h.frames.findIdx? name

theorem classKind (h : place.Boxed layers place') : place'.classKind = place.classKind := by
  rw [Place.classKind, h.classes, Place.classKind]

/-- A use is matched with the same scope. -/
theorem matched? (h : place.Boxed layers place') (u : Use) :
    place'.matched? u = (place.matched? u).map layers.widen := by
  rw [Place.matched?, Place.matched?, h.classKind, h.distance?]
  split <;> rfl

end Place.Boxed

end Scope

/-! ## Sites among extra scopes -/

/-- A site at a place and at its counterpart. Either both break a rule or none does. -/
structure Occurrence.Boxed (o o' : Occurrence) : Prop where
  site : o'.site = o.site
  place : ∃ layers, o.place.Boxed layers o'.place
  faults : ∀ fault : ScopeFault, fault.arisesAt o' = fault.arisesAt o

namespace Scope.Place.Boxed

variable {place place' : Place}

theorem useSite (h : place.Boxed layers place') (u : Use) :
    Occurrence.Boxed ⟨place, .use u⟩ ⟨place', .use u⟩ := by
  refine ⟨rfl, ⟨layers, h⟩, fun fault => ?_⟩
  obtain ⟨kind, token, node⟩ := u
  cases fault <;> cases kind <;>
    simp only [ScopeFault.arisesAt, h.initializing, h.classes, Place.inBaseClass]

theorem declarationSite (h : place.Boxed layers place') (hshared : layers.Shared) (name : Token) :
    Occurrence.Boxed ⟨place, .declaration name⟩ ⟨place', .declaration name⟩ := by
  refine ⟨rfl, ⟨layers, h⟩, fun fault => ?_⟩
  cases fault <;> simp only [ScopeFault.arisesAt, Place.hasDeclared]
  have hframes := h.frames
  generalize place.scopes = frames at hframes ⊢
  generalize place'.scopes = frames' at hframes ⊢
  cases hframes with
  | nil => rfl
  | both hnames _ => simp only [hnames]
  | extra _ _ => exact absurd rfl hshared

theorem returnSite (h : place.Boxed layers place') (keyword : Token) (hasValue : Bool) :
    Occurrence.Boxed ⟨place, .return_ keyword hasValue⟩ ⟨place', .return_ keyword hasValue⟩ := by
  refine ⟨rfl, ⟨layers, h⟩, fun fault => ?_⟩
  have hfunctions := h.functions
  cases fault <;> simp only [ScopeFault.arisesAt, Place.inInitializer]
  all_goals
    generalize place.functions = functions at hfunctions ⊢
    generalize place'.functions = functions' at hfunctions ⊢
    cases hfunctions with
    | nil => rfl
    | cons hfunction _ =>
        cases hfunction with
        | function _ _ => rfl
        | method hsame => simp [hsame]

theorem inheritanceSite (h : place.Boxed layers place') (name superName : Token) :
    Occurrence.Boxed ⟨place, .inheritance name superName⟩
      ⟨place', .inheritance name superName⟩ := by
  refine ⟨rfl, ⟨layers, h⟩, fun fault => ?_⟩
  cases fault <;> rfl

end Scope.Place.Boxed

/-! ## Uses of `super` -/

mutual

/-- A use of `super` in an expression is spelled so. -/
theorem Expr.Formed.superSpelled {e : Expr} (h : e.Formed Token.Spelled) :
    ∀ u ∈ e.uses, u.kind = .super_ → u.token.lexeme = "super" := by
  cases e with
  | literal id value => exact fun _ hu => by cases hu
  | grouping id inner =>
      have hinner : inner.Formed Token.Spelled := h
      exact hinner.superSpelled
  | unary id operator operand => exact h.2.superSpelled
  | binary id left operator right =>
      exact List.forall_mem_append.mpr ⟨h.1.superSpelled, h.2.2.superSpelled⟩
  | logical id left operator right =>
      exact List.forall_mem_append.mpr ⟨h.1.superSpelled, h.2.2.superSpelled⟩
  | var id name => exact List.forall_mem_singleton.mpr nofun
  | assign id name value => exact List.forall_mem_cons.mpr ⟨nofun, h.2.superSpelled⟩
  | call id callee paren arguments =>
      exact List.forall_mem_append.mpr ⟨h.1.superSpelled, Expr.superSpelledAll h.2⟩
  | get id object name => exact h.1.superSpelled
  | set id object name value =>
      exact List.forall_mem_append.mpr ⟨h.1.superSpelled, h.2.2.superSpelled⟩
  | super_ id keyword method =>
      exact List.forall_mem_singleton.mpr fun _ => h.1.property.keyword h.1.category
  | this_ id keyword => exact List.forall_mem_singleton.mpr nofun

theorem Expr.superSpelledAll {es : List Expr} (h : Expr.FormedAll Token.Spelled es) :
    ∀ u ∈ Expr.usesAll es, u.kind = .super_ → u.token.lexeme = "super" := by
  cases es with
  | nil => exact fun _ hu => by cases hu
  | cons e rest =>
      exact List.forall_mem_append.mpr ⟨h.1.superSpelled, Expr.superSpelledAll h.2⟩

end

theorem Expr.superSpelledOpt {e : Option Expr} (h : Expr.FormedOpt Token.Spelled e) :
    ∀ u ∈ Expr.usesOpt e, u.kind = .super_ → u.token.lexeme = "super" := by
  cases e with
  | none => exact fun _ hu => by cases hu
  | some e =>
      have hformed : e.Formed Token.Spelled := h
      exact hformed.superSpelled

/-! ## Trees among extra scopes -/

/-- The demands are met by uses at places that go together, and by statements that declare nothing
in the scope around them. -/
structure Demands.Met (demands : Demands) (sites sites' : List Occurrence) : Prop where
  use : ∀ layers place place' u, ⟨place, .use u⟩ ∈ sites → ⟨place', .use u⟩ ∈ sites' →
    place.Boxed layers place' → (u.kind = .super_ → u.token.lexeme = "super") →
      demands.use layers u
  boxed : ∀ s : Stmt, s.declares = [] → demands.boxed s

theorem Demands.Met.subset {demands : Demands} {sites sites' known known' : List Occurrence}
    (h : demands.Met known known') (hsub : sites ⊆ known) (hsub' : sites' ⊆ known') :
    demands.Met sites sites' :=
  ⟨fun layers place place' u hu hu' => h.use layers place place' u (hsub hu) (hsub' hu'), h.boxed⟩

/-- The sites of a piece of a program and those of its counterpart go together one by one, and so do
the pieces, whatever is demanded of those sites. -/
structure Located (sites sites' : List Occurrence) (tree : Demands → Prop) : Prop where
  beside : List.Forall₂ Occurrence.Boxed sites sites'
  tree : ∀ demands : Demands, demands.Met sites sites' → tree demands

namespace Located

variable {sites sites' more more' : List Occurrence} {tree tree' whole : Demands → Prop}

theorem mono (h : Located sites sites' tree) (hwhole : ∀ demands, tree demands → whole demands) :
    Located sites sites' whole :=
  ⟨h.beside, fun demands hmet => hwhole _ (h.tree demands hmet)⟩

theorem nil (h : ∀ demands, tree demands) : Located [] [] tree :=
  ⟨.nil, fun _ _ => h _⟩

theorem cons {o o' : Occurrence} (ho : o.Boxed o') (h : Located sites sites' tree) :
    Located (o :: sites) (o' :: sites') tree :=
  ⟨.cons ho h.beside, fun demands hmet =>
    h.tree demands (hmet.subset (List.subset_cons_self _ _) (List.subset_cons_self _ _))⟩

theorem append (h : Located sites sites' tree) (hmore : Located more more' tree') :
    Located (sites ++ more) (sites' ++ more') fun demands => tree demands ∧ tree' demands := by
  refine ⟨List.rel_append h.beside hmore.beside, fun demands hmet => ⟨h.tree demands ?_,
    hmore.tree demands ?_⟩⟩
  · exact hmet.subset (List.subset_append_left _ _) (List.subset_append_left _ _)
  · exact hmet.subset (List.subset_append_right _ _) (List.subset_append_right _ _)

/-- Sites of nothing that is asked about. -/
theorem ofSites (h : List.Forall₂ Occurrence.Boxed sites sites') :
    Located sites sites' fun _ => True :=
  ⟨h, fun _ _ => trivial⟩

theorem uses {place place' : Place} (h : place.Boxed layers place') {uses : List Use}
    (hspelled : ∀ u ∈ uses, u.kind = .super_ → u.token.lexeme = "super") :
    Located (uses.map fun u => ⟨place, .use u⟩) (uses.map fun u => ⟨place', .use u⟩)
      fun demands => demands.Uses layers uses := by
  refine ⟨?_, fun demands hmet u hu => ?_⟩
  · rw [List.forall₂_map_left_iff, List.forall₂_map_right_iff]
    exact List.forall₂_same.mpr fun u _ => h.useSite u
  · exact hmet.use layers place place' u (List.mem_map_of_mem hu) (List.mem_map_of_mem hu) h
      (hspelled u hu)

end Located

section

variable {place place' : Place}

theorem parameterSites_boxed (h : place.Boxed layers place') (hshared : layers.Shared)
    (parameters : List Token) :
    List.Forall₂ Occurrence.Boxed (parameterSites place parameters)
      (parameterSites place' parameters) := by
  induction parameters generalizing place place' with
  | nil => exact .nil
  | cons name rest ih =>
      exact .cons (h.declarationSite hshared name) (ih (h.declare fun _ => hshared))

theorem inheritanceSites_boxed (h : place.Boxed layers place') (name : Token)
    (superclass : Option Expr) :
    List.Forall₂ Occurrence.Boxed (inheritanceSites place name superclass)
      (inheritanceSites place' name superclass) := by
  cases superclass with
  | none => exact .nil
  | some e =>
      cases e with
      | var id superName => exact .cons (h.inheritanceSite name superName) .nil
      | _ => exact .nil

end

mutual

/-- A statement that may declare something is in a scope of both programs. -/
theorem Stmt.Boxed.located {layers : Layers} {s s' : Stmt} (h : Stmt.Boxed .plain layers s s')
    (hformed : s.Formed Token.Spelled) {place place' : Place} (hplace : place.Boxed layers place')
    (hidle : place.initializing = none) (hshared : s.declares ≠ [] → layers.Shared) :
    Located (s.sites place) (s'.sites place') fun demands => Stmt.Boxed demands layers s s' := by
  cases h with
  | bare hinside =>
      exact (hinside.located hformed hplace hidle hshared).mono fun _ => .bare
  | @box _ _ s' hbox hinside =>
      have hnone : s.declares = [] := hformed.declares_eq_nil hbox
      have hinner := hinside.located hformed (hplace.enterExtra hidle (.block [s'])) hidle
        fun hsome => absurd hnone hsome
      rw [Stmt.sites, Stmt.sitesAll, Stmt.sitesAll, List.append_nil]
      exact ⟨hinner.beside, fun demands hmet =>
        .box (hmet.boxed s hnone) (hinner.tree demands hmet)⟩

theorem Stmt.BoxedInside.located {layers : Layers} {s s' : Stmt}
    (h : Stmt.BoxedInside .plain layers s s') (hformed : s.Formed Token.Spelled)
    {place place' : Place}
    (hplace : place.Boxed layers place') (hidle : place.initializing = none)
    (hshared : s.declares ≠ [] → layers.Shared) :
    Located (s.sites place) (s'.sites place')
      fun demands => Stmt.BoxedInside demands layers s s' := by
  cases h with
  | @expression _ value _ =>
      have hvalue : value.Formed Token.Spelled := hformed
      exact (Located.uses hplace hvalue.superSpelled).mono fun _ => .expression
  | @print _ value _ =>
      have hvalue : value.Formed Token.Spelled := hformed
      exact (Located.uses hplace hvalue.superSpelled).mono fun _ => .print
  | @var _ name initializer _ =>
      have hname := hshared (List.cons_ne_nil _ _)
      have hinside := hplace.initializerOf hname name.lexeme
      exact .cons (hplace.declarationSite hname name)
        ((Located.uses hinside (Expr.superSpelledOpt hformed.2)).mono fun _ => .var name)
  | @block _ body body' hbody =>
      have hinside := hplace.enter hidle (.block body) (.block body') []
      exact (hbody.located hformed hinside hidle (Layers.shared_both _)).mono fun _ => .block
  | @function _ declaration declaration' hdeclaration =>
      have hname := hshared (List.cons_ne_nil _ _)
      have hinside := hplace.declareName hname declaration.name.lexeme
      have hsites := hdeclaration.located hformed hinside hidle (.function _ _)
      rw [Stmt.sites, Stmt.sites, hdeclaration.name]
      exact .cons (hplace.declarationSite hname _) (hsites.mono fun _ => .function)
  | @class_ _ name superclass methods methods' _ hmethods =>
      have hname := hshared (List.cons_ne_nil _ _)
      have hinside := (hplace.declareName hname name.lexeme).enterClass superclass
      have hnone : ((place.declare [name.lexeme]).enterClass superclass).initializing = none := hidle
      have hidle' : (((place.declare [name.lexeme]).enterClass superclass).enterMethods superclass
          methods).initializing = none := by
        rw [Scope.Place.enterMethods]
        split <;> exact hidle
      have hmembers := hmethods.located hformed.2.2
        (hinside.enterMethods hnone superclass methods methods') hidle'
      have hheader := (Located.ofSites (inheritanceSites_boxed hinside name superclass)).append
        (Located.uses hinside (Expr.superSpelledOpt hformed.2.1.formed))
      refine .cons (hplace.declarationSite hname name) ((hheader.append hmembers).mono ?_)
      rintro demands ⟨⟨-, hsuper⟩, hmethods⟩
      exact .class_ name hsuper hmethods
  | @ifThen _ condition _ _ _ hthen =>
      have hbranch := hthen.located hformed.2.2 (hplace.branch 0) hidle hshared
      refine ((Located.uses hplace hformed.1.superSpelled).append hbranch).mono ?_
      rintro demands ⟨hcondition, hthen⟩
      exact .ifThen hcondition hthen
  | @ifElse _ condition thenBranch thenBranch' _ _ _ hthen helse =>
      obtain ⟨hspelled, ⟨-, hformed⟩, -, hformed'⟩ := hformed
      have hfirst : thenBranch.declares ≠ [] → layers.Shared := fun hsome =>
        hshared (List.append_ne_nil_of_left_ne_nil hsome _)
      have hbranch := hthen.located hformed (hplace.branch 0) hidle hfirst
      -- the second branch is after the first one, so that it sees what that one declares
      have hafter := (hplace.declare hfirst).branch 1
      have hbranch' := helse.located hformed' hafter hidle fun hsome =>
        hshared (List.append_ne_nil_of_right_ne_nil _ hsome)
      rw [Stmt.sites, Stmt.sites, hthen.declares (fun _ h => h) hformed]
      refine (((Located.uses hplace hspelled.superSpelled).append hbranch).append hbranch').mono ?_
      rintro demands ⟨⟨hcondition, hthen⟩, helse⟩
      exact .ifElse hcondition hthen helse
  | @while_ _ condition _ _ _ hbody =>
      have hinner := hbody.located hformed.2.2 (hplace.branch 0) hidle hshared
      refine ((Located.uses hplace hformed.1.superSpelled).append hinner).mono ?_
      rintro demands ⟨hcondition, hbody⟩
      exact .while_ hcondition hbody
  | @return_ _ keyword value _ =>
      exact .cons (hplace.returnSite keyword _)
        ((Located.uses hplace (Expr.superSpelledOpt hformed.2)).mono fun _ => .return_ keyword)

theorem Stmt.BoxedAll.located {layers : Layers} {statements statements' : List Stmt}
    (h : Stmt.BoxedAll .plain layers statements statements')
    (hformed : Stmt.FormedAll Token.Spelled statements) {place place' : Place}
    (hplace : place.Boxed layers place') (hidle : place.initializing = none)
    (hshared : layers.Shared) :
    Located (Stmt.sitesAll place statements) (Stmt.sitesAll place' statements')
      fun demands => Stmt.BoxedAll demands layers statements statements' := by
  cases h with
  | nil => exact .nil fun _ => .nil
  | @cons _ s s' _ _ hs hrest =>
      obtain ⟨hformed, hformed'⟩ := hformed
      have hafter : (place.after s).Boxed layers (place'.after s') := by
        rw [Place.after, Place.after, hs.declares (fun _ h => h) hformed]
        exact (hplace.declare fun _ => hshared).next
      have hfirst := hs.located hformed hplace hidle fun _ => hshared
      refine (hfirst.append (hrest.located hformed' hafter hidle hshared)).mono ?_
      rintro demands ⟨hs, hrest⟩
      exact .cons hs hrest

theorem FunctionDecl.Boxed.located {layers : Layers} {declaration declaration' : FunctionDecl}
    (h : FunctionDecl.Boxed .plain layers declaration declaration')
    (hformed : declaration.Formed Token.Spelled) {place place' : Place}
    (hplace : place.Boxed layers place') (hidle : place.initializing = none)
    {form : FunctionDecl → Enclosing} (hform : (form declaration).Twin (form declaration')) :
    Located (declaration.sites place form) (declaration'.sites place' form)
      fun demands => FunctionDecl.Boxed demands layers declaration declaration' := by
  cases h with
  | mk name parameters hbody =>
      have hinside := hplace.enterFunction hidle hform
      have hshared := Layers.shared_both layers
      refine ((Located.ofSites (parameterSites_boxed hinside hshared parameters)).append
        (hbody.located hformed.2.2 (hinside.declare fun _ => hshared) hidle hshared)).mono ?_
      rintro demands ⟨-, hbody⟩
      exact .mk name parameters hbody

theorem FunctionDecl.BoxedAll.located {layers : Layers} {methods methods' : List FunctionDecl}
    (h : FunctionDecl.BoxedAll .plain (.both :: layers) methods methods')
    (hformed : FunctionDecl.FormedAll Token.Spelled methods) {place place' : Place}
    (hplace : place.Boxed layers place') (hidle : place.initializing = none) :
    Located (FunctionDecl.sitesAll place methods) (FunctionDecl.sitesAll place' methods')
      fun demands => FunctionDecl.BoxedAll demands (.both :: layers) methods methods' := by
  cases h with
  | nil => exact .nil fun _ => .nil
  | @cons _ method method' _ _ hmethod hrest =>
      have hinside := hplace.enter hidle (.receiver method) (.receiver method') ["this"]
      have hfirst := hmethod.located hformed.1 hinside hidle (.method hmethod.isInitializer)
      refine (hfirst.append (hrest.located hformed.2 hplace.next hidle)).mono ?_
      rintro demands ⟨hmethod, hrest⟩
      exact .cons hmethod hrest

end

/-! ## Programs with extra blocks -/

section

variable {sites sites' : List Occurrence}

/-- The uses among the sites have the same identities. -/
theorem useNodes_boxed (h : List.Forall₂ Occurrence.Boxed sites sites') :
    useNodes sites' = useNodes sites := by
  induction h with
  | nil => rfl
  | @cons o o' _ _ ho _ ih =>
      simp only [useNodes, List.filterMap_cons, ho.site] at ih ⊢
      rw [ih]

/-- Counterparts of sites that break no rule break none. -/
theorem lawful_boxed (h : List.Forall₂ Occurrence.Boxed sites sites')
    (hlawful : ∀ o ∈ sites, ∀ fault : ScopeFault, fault.arisesAt o = false) :
    ∀ o ∈ sites', ∀ fault : ScopeFault, fault.arisesAt o = false := by
  induction h with
  | nil => simp
  | cons ho _ ih =>
      obtain ⟨hfirst, hrest⟩ := List.forall_mem_cons.mp hlawful
      exact List.forall_mem_cons.mpr ⟨fun fault => by rw [ho.faults, hfirst], ih hrest⟩

end

/-- What the distances of a program say of a use, those of the program with extra blocks say as
well: they count the extra scopes in between. The scope of `this` is next to that of `super` in
both. -/
structure Widened (distances distances' : Distances) (layers : Layers) (u : Use) : Prop where
  distance : distances'[u.node]? = distances[u.node]?.map layers.widen
  receiver : u.kind = .super_ → ∀ distance, distances[u.node]? = some distance →
    layers.widen (distance - 1) = layers.widen distance - 1

/-- The demands of a run: distances are widened, and nothing that declares a name in the scope
around it is put into a block. -/
def Demands.widened (distances distances' : Distances) : Demands where
  use := Widened distances distances'
  boxed s := s.declares = []

section

variable {distances distances' : Distances}

/-- Where the scopes of `this` and `super` are next to each other at a place and at its counterpart,
no extra scope is between them. -/
theorem Scope.Place.Boxed.receiver {place place' : Place} {u : Use} {distance : Nat}
    (h : place.Boxed layers place') (hframed : Framed u place.scopes place.classes)
    (hframed' : Framed u place'.scopes place'.classes) {superclass : Expr}
    (hclass : place.classes.head? = some (some superclass))
    (hdistance : place.distance? "super" = some distance) :
    layers.widen (distance - 1) = layers.widen distance - 1 := by
  by_cases hname : place.initializing = some "super"
  · rw [Place.distance?, if_pos hname] at hdistance
    cases hdistance
    rw [(h.shared (by simp [hname])).widen_zero]
  · rw [Place.distance?, if_neg hname] at hdistance
    -- `this` is found one scope inside `super`, in the program and with the extra blocks
    obtain ⟨depth, -, -, -, -, -, -, -, -, -, hthis, hsuper⟩ := hframed.nearest hclass
    rw [← h.classes] at hclass
    obtain ⟨depth', -, -, -, -, -, -, -, -, -, hthis', hsuper'⟩ := hframed'.nearest hclass
    rw [h.frames.findIdx?, hthis, Option.map_some, Option.some.injEq] at hthis'
    rw [h.frames.findIdx?, hsuper, Option.map_some, Option.some.injEq] at hsuper'
    rw [hsuper, Option.some.injEq] at hdistance
    subst hdistance
    rw [hsuper', Nat.add_sub_cancel, Nat.add_sub_cancel, hthis']

/-- A program with extra blocks is accepted if the program is, and its distances are widened. -/
theorem resolve_boxed {program program' : List Stmt}
    (hresolve : Scope.resolve program = (distances, []))
    (hformed : Stmt.FormedAll Token.Spelled program)
    (hnodup : (useNodes (programSites program)).Nodup)
    (h : Stmt.BoxedAll .plain [] program program') :
    ∃ distances', Scope.resolve program' = (distances', []) ∧
      Stmt.BoxedAll (.widened distances distances') [] program program' := by
  obtain ⟨hbeside, htree⟩ := h.located hformed .top rfl Layers.shared_nil
  have hlawful := (Scope.lawful_iff_resolve program).mpr ⟨distances, hresolve⟩
  obtain ⟨distances', hresolve'⟩ :=
    (Scope.lawful_iff_resolve program').mp (lawful_boxed hbeside hlawful)
  have hnodup' : (useNodes (programSites program')).Nodup := by
    rwa [programSites, useNodes_boxed hbeside]
  refine ⟨distances', hresolve', htree _ ⟨fun layers place place' u hu hu' hplace hspelled => ?_,
    fun _ hnone => hnone⟩⟩
  have hmatched := Scope.matched_of_resolve (congrArg Prod.fst hresolve) hnodup hu
  have hmatched' := Scope.matched_of_resolve (congrArg Prod.fst hresolve') hnodup' hu'
  refine ⟨by rw [hmatched, hmatched', hplace.matched?], fun hkind distance hdistance => ?_⟩
  have hframed := superFramed_program hformed place u hu hkind
  have hframed' := superFramed_program (h.formed hformed) place' u hu' hkind
  obtain ⟨kind, token, node⟩ := u
  cases hkind
  obtain ⟨superclass, outer, hclasses⟩ := classes_of_lawful (hlawful _ hu)
  rw [hmatched] at hdistance
  refine hplace.receiver hframed hframed' (congrArg List.head? hclasses) ?_
  rw [← hspelled rfl]
  simp only [Place.matched?] at hdistance
  split at hdistance <;> simp_all

end

end Lox
