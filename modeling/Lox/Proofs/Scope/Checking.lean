import Lox.Proofs.Scope.Pass

/-!
# The resolver checks the static rules

Every pass of the resolver over a piece of program keeps its knowledge in step with the places of
the text, and adds exactly the violations and the distances of the sites that it passes. For a
whole program this makes the errors the violations of the static rules, each as often as a site
breaks a rule.
-/

namespace Lox.Scope

variable {state : State} {place : Place}

/-- A pass over a piece of program that ends at a place, with the given sites in it. -/
structure Passes (occurrences : List Occurrence) (after : Place) (state state' : State) : Prop where
  fits : Fits state' after
  effect : Effect occurrences state state'

/-! ## Uses -/

theorem record_eq (node : NodeId) (name : Token) (state : State) :
    (record node name state).2 =
      { state with
        distances := (distance? name.lexeme state.scopes).elim state.distances
          (state.distances.insert node) } := by
  rw [record, modify_eq]
  cases distance? name.lexeme state.scopes <;> rfl

theorem progress?_eq_declared_iff (place : Place) (name : String) :
    place.progress? 0 name = some .declared ↔ place.initializing = some name := by
  by_cases h : place.initializing = some name
  · simp [Place.progress?, h]
  · cases hscopes : place.scopes with
    | nil => simp [Place.progress?, h, hscopes]
    | cons frame outer =>
        by_cases hmem : name ∈ frame.names <;>
          simp [Place.progress?, h, hscopes, Frame.progress?, hmem]

theorem record_passes (h : Fits state place) (kind : UseKind) (node : NodeId) (name : Token)
    (hrule : violations [⟨place, .use ⟨kind, name, node⟩⟩] = [])
    (hmatched : place.matched? ⟨kind, name, node⟩ = place.distance? name.lexeme) :
    Passes [⟨place, .use ⟨kind, name, node⟩⟩] place state (record node name state).2 := by
  rw [record_eq]
  refine ⟨h.congr rfl rfl rfl, .use (by simp [hrule]) ?_⟩
  simp only [hmatched, h.distance?_eq]

theorem resolveVar_passes (h : Fits state place) (node : NodeId) (name : Token) :
    Passes [⟨place, .use ⟨.var, name, node⟩⟩] place state (resolveExpr (.var node name) state).2 := by
  have hdistance := h.distance?_eq name.lexeme
  have hknown := h.known_eq name.lexeme
  have hresolve : (resolveExpr (.var node name) state).2 =
      (record node name
        { state with
          errors := state.errors ++
            (if known state name.lexeme = some .declared then [⟨.readInInitializer, name⟩]
              else []) }).2 := by
    rw [resolveExpr]
    change ((if known state name.lexeme = some .declared then
      (note .readInInitializer name >>= fun _ => record node name : Pass)
      else record node name) state).2 = _
    by_cases hdeclared : known state name.lexeme = some .declared
    · simp only [if_pos hdeclared]
      rfl
    · simp only [if_neg hdeclared, List.append_nil]
  rw [hresolve, record_eq]
  refine ⟨h.congr rfl rfl rfl, .use ?_ ?_⟩
  · simp only [hknown, progress?_eq_declared_iff]
    by_cases hinit : place.initializing = some name.lexeme <;>
      simp [violations, ScopeFault.all, ScopeFault.violations, ScopeFault.arisesAt, hinit,
        Site.token]
  · simp only [hdistance, Place.matched?]

theorem note_passes (h : Fits state place) (fault : ScopeFault) (u : Use)
    (hrule : violations [⟨place, .use u⟩] = [⟨fault, u.token⟩])
    (hmatched : place.matched? u = none) :
    Passes [⟨place, .use u⟩] place state (note fault u.token state).2 := by
  refine ⟨h.congr rfl rfl rfl, .use ?_ ?_⟩
  · rw [hrule]
    rfl
  · rw [hmatched]
    rfl

theorem resolveThis_outside {node : NodeId} {keyword : Token} (h : state.class_ = .none) :
    (resolveExpr (.this_ node keyword) state).2 = (note .thisOutsideClass keyword state).2 := by
  rw [resolveExpr, bind_get_eq, h]

theorem resolveThis_inside {node : NodeId} {keyword : Token} (h : state.class_ ≠ .none) :
    (resolveExpr (.this_ node keyword) state).2 = (record node keyword state).2 := by
  rw [resolveExpr, bind_get_eq]
  cases hkind : state.class_ <;> simp_all

theorem resolveSuper_outside {node : NodeId} {keyword method : Token} (h : state.class_ = .none) :
    (resolveExpr (.super_ node keyword method) state).2 =
      (note .superOutsideClass keyword state).2 := by
  rw [resolveExpr, bind_get_eq, h]

theorem resolveSuper_base {node : NodeId} {keyword method : Token} (h : state.class_ = .base) :
    (resolveExpr (.super_ node keyword method) state).2 =
      (note .superWithoutSuperclass keyword state).2 := by
  rw [resolveExpr, bind_get_eq, h]

theorem resolveSuper_derived {node : NodeId} {keyword method : Token}
    (h : state.class_ = .derived) :
    (resolveExpr (.super_ node keyword method) state).2 = (record node keyword state).2 := by
  rw [resolveExpr, bind_get_eq, h]

theorem resolveThis_passes (h : Fits state place) (node : NodeId) (keyword : Token) :
    Passes [⟨place, .use ⟨.this_, keyword, node⟩⟩] place state
      (resolveExpr (.this_ node keyword) state).2 := by
  have hclass := h.class_
  cases hkind : place.classes with
  | nil =>
      simp only [Place.classKind, hkind] at hclass
      rw [resolveThis_outside hclass]
      apply note_passes h .thisOutsideClass ⟨.this_, keyword, node⟩
      · simp [violations, ScopeFault.all, ScopeFault.violations, ScopeFault.arisesAt, hkind,
          Site.token]
      · simp [Place.matched?, Place.classKind, hkind]
  | cons superclass outer =>
      have hpass := record_passes h .this_ node keyword
        (by simp [violations, ScopeFault.all, ScopeFault.violations, ScopeFault.arisesAt, hkind])
        (by cases superclass <;> simp [Place.matched?, Place.classKind, hkind])
      rw [resolveThis_inside (by cases superclass <;> simp [hclass, Place.classKind, hkind])]
      exact hpass

theorem resolveSuper_passes (h : Fits state place) (node : NodeId) (keyword method : Token) :
    Passes [⟨place, .use ⟨.super_, keyword, node⟩⟩] place state
      (resolveExpr (.super_ node keyword method) state).2 := by
  have hclass := h.class_
  cases hkind : place.classes with
  | nil =>
      simp only [Place.classKind, hkind] at hclass
      rw [resolveSuper_outside hclass]
      apply note_passes h .superOutsideClass ⟨.super_, keyword, node⟩
      · simp [violations, ScopeFault.all, ScopeFault.violations, ScopeFault.arisesAt, hkind,
          Site.token, Place.inBaseClass]
      · simp [Place.matched?, Place.classKind, hkind]
  | cons superclass outer =>
      cases superclass with
      | none =>
          simp only [Place.classKind, hkind] at hclass
          rw [resolveSuper_base hclass]
          apply note_passes h .superWithoutSuperclass ⟨.super_, keyword, node⟩
          · simp [violations, ScopeFault.all, ScopeFault.violations, ScopeFault.arisesAt, hkind,
              Site.token, Place.inBaseClass]
          · simp [Place.matched?, Place.classKind, hkind]
      | some superclass =>
          have hpass := record_passes h .super_ node keyword
            (by simp [violations, ScopeFault.all, ScopeFault.violations, ScopeFault.arisesAt,
              hkind, Place.inBaseClass])
            (by simp [Place.matched?, Place.classKind, hkind])
          simp only [Place.classKind, hkind] at hclass
          rw [resolveSuper_derived hclass]
          exact hpass

/-! ## Expressions -/

namespace Passes

variable {xs ys : List Occurrence} {middle after : Place} {state' state'' : State}

theorem silent (h : Fits state' after) (herrors : state'.errors = state.errors)
    (hdistances : state'.distances = state.distances) : Passes [] after state state' :=
  ⟨h, .silent herrors hdistances⟩

theorem append (hx : Passes xs middle state state') (hy : Passes ys after state' state'') :
    Passes (xs ++ ys) after state state'' :=
  ⟨hy.fits, hx.effect.append hy.effect⟩

theorem perm (h : Passes xs after state state') (hperm : xs.Perm ys) :
    Passes ys after state state' :=
  ⟨h.fits, h.effect.perm hperm⟩

end Passes

mutual

theorem resolveExpr_passes (e : Expr) {state : State} (h : Fits state place) :
    Passes (e.sites place) place state (resolveExpr e state).2 := by
  match e with
  | .literal _ _ => exact .silent h rfl rfl
  | .grouping _ inner => exact resolveExpr_passes inner h
  | .unary _ _ operand => exact resolveExpr_passes operand h
  | .binary _ left _ right | .logical _ left _ right =>
      have hleft := resolveExpr_passes left h
      have hright := resolveExpr_passes right hleft.fits
      rw [Expr.sites, Expr.uses, List.map_append]
      exact hleft.append hright
  | .var id name => exact resolveVar_passes h id name
  | .assign id name value =>
      have hvalue := resolveExpr_passes value h
      have htarget := record_passes hvalue.fits .assign id name
        (by simp [violations, ScopeFault.all, ScopeFault.violations, ScopeFault.arisesAt])
        (by simp [Place.matched?])
      exact (hvalue.append htarget).perm (List.perm_append_singleton _ _)
  | .call _ callee _ arguments =>
      have hcallee := resolveExpr_passes callee h
      have harguments := resolveExprs_passes arguments hcallee.fits
      rw [Expr.sites, Expr.uses, List.map_append]
      exact hcallee.append harguments
  | .get _ object _ => exact resolveExpr_passes object h
  | .set _ object _ value =>
      have hvalue := resolveExpr_passes value h
      have hobject := resolveExpr_passes object hvalue.fits
      rw [Expr.sites, Expr.uses, List.map_append]
      exact (hvalue.append hobject).perm List.perm_append_comm
  | .super_ id keyword method => exact resolveSuper_passes h id keyword method
  | .this_ id keyword => exact resolveThis_passes h id keyword

theorem resolveExprs_passes (es : List Expr) {state : State} (h : Fits state place) :
    Passes (Expr.sitesAll place es) place state (resolveExprs es state).2 := by
  match es with
  | [] => exact .silent h rfl rfl
  | e :: rest =>
      have hfirst := resolveExpr_passes e h
      have hrest := resolveExprs_passes rest hfirst.fits
      rw [Expr.sitesAll, Expr.usesAll, List.map_append]
      exact hfirst.append hrest

end

theorem resolveExprOpt_passes (e : Option Expr) (h : Fits state place) :
    Passes (Expr.sitesOpt place e) place state (resolveExprOpt e state).2 := by
  cases e with
  | none => exact .silent h rfl rfl
  | some e => exact resolveExpr_passes e h

/-! ## Declarations -/

theorem declare_passes (h : Fits state place) (hidle : place.initializing = none) (name : Token) :
    Passes [⟨place, .declaration name⟩] (place.initializerOf name.lexeme) state
      (declare name state).2 := by
  refine ⟨h.declare hidle name, .report (by simp) ?_ ?_⟩
  · have hdeclared : (known state name.lexeme).isSome = place.hasDeclared name.lexeme := by
      rw [h.known_eq]
      cases hscopes : place.scopes with
      | nil => simp [Place.progress?, hidle, hscopes, Place.hasDeclared]
      | cons frame outer =>
          by_cases hmem : name.lexeme ∈ frame.names <;>
            simp [Place.progress?, hidle, hscopes, Place.hasDeclared, Frame.progress?, hmem]
    rw [declare_eq]
    simp only [hdeclared]
    cases hrule : place.hasDeclared name.lexeme <;>
      simp [violations, ScopeFault.all, ScopeFault.violations, ScopeFault.arisesAt, hrule,
        Site.token]
  · rw [declare_eq]

theorem define_passes (h : Fits state (place.initializerOf name)) (hidle : place.initializing = none)
    (token : Token) (htoken : token.lexeme = name) :
    Passes [] (place.declare [name]) state (define token state).2 := by
  refine .silent (h.define hidle token htoken) ?_ ?_
  · rw [define_eq]
  · rw [define_eq]

/-- A name that is declared and defined at once. -/
theorem bind_passes (h : Fits state place) (hidle : place.initializing = none) (name : Token) :
    Passes [⟨place, .declaration name⟩] (place.declare [name.lexeme]) state
      (define name (declare name state).2).2 := by
  have hdeclare := declare_passes h hidle name
  simpa using hdeclare.append (define_passes hdeclare.fits hidle name rfl)

theorem declare_declare (place : Place) (xs ys : List String) :
    (place.declare xs).declare ys = place.declare (xs ++ ys) := by
  cases hscopes : place.scopes with
  | nil => simp [Place.declare, Place.declareIn, hscopes]
  | cons frame outer => simp [Place.declare, Place.declareIn, hscopes]

theorem declare_nil (place : Place) : place.declare [] = place := by
  cases hscopes : place.scopes with
  | nil => rw [Place.declare, hscopes, Place.declareIn, ← hscopes]
  | cons frame outer =>
      rw [Place.declare, hscopes, Place.declareIn]
      simp only [List.append_nil]
      rw [← hscopes]

theorem resolveParameters_passes (parameters : List Token) {state : State} {place : Place}
    (h : Fits state place) (hidle : place.initializing = none) :
    Passes (parameterSites place parameters) (place.declare (parameters.map Token.lexeme)) state
      (resolveParameters parameters state).2 := by
  induction parameters generalizing state place with
  | nil =>
      rw [List.map_nil, declare_nil]
      exact .silent h rfl rfl
  | cons name rest ih =>
      have hname := bind_passes h hidle name
      have hrest := ih hname.fits hidle
      rw [declare_declare, List.singleton_append] at hrest
      rw [parameterSites, List.map_cons]
      exact hname.append hrest

/-! ## Statements -/

/-- A function passes if its body does, and leaves nothing behind. -/
theorem inFunction_passes (h : Fits state place) (hidle : place.initializing = none)
    (form : FunctionDecl → Enclosing) (declaration : FunctionDecl) (kind : FunctionKind)
    (hkind : (place.enterFunction form declaration).functionKind = kind)
    (hbody : ∀ {inside : Place} {state : State}, Fits state inside → inside.initializing = none →
      Passes (Stmt.sitesAll inside declaration.body) (inside.afterAll declaration.body) state
        (resolveStmts declaration.body state).2) :
    Passes (declaration.sites place form) place state
      (inFunction kind declaration.parameters (resolveStmts declaration.body) state).2 := by
  obtain ⟨name, parameters, body⟩ := declaration
  have hopened : Fits (openScope { state with function := kind }).2
      (place.enterFunction form ⟨name, parameters, body⟩) := by
    have hscope := h.opened hidle (.function ⟨name, parameters, body⟩)
    exact ⟨hkind.symm, hscope.class_, hscope.depth, hscope.knows⟩
  have hparameters := resolveParameters_passes parameters hopened hidle
  have hpasses := hparameters.append (hbody hparameters.fits hidle)
  have hdeclare := (place.enterFunction form ⟨name, parameters, body⟩).beside_declare
    (parameters.map Token.lexeme)
  have hafter := ((place.enterFunction form ⟨name, parameters, body⟩).declare
    (parameters.map Token.lexeme)).beside_afterAll body
  refine ⟨hpasses.fits.closed (hafter.initializing.trans hidle) hidle ?_ rfl h.function ?_, ?_⟩
  · rw [hafter.scopes, hdeclare.scopes]
    rfl
  · refine hpasses.fits.class_.trans ?_
    rw [Place.classKind, hafter.classes]
    rfl
  · exact hpasses.effect.congr rfl rfl rfl rfl

/-- Declaring a class does not depend on the kind of class around it. -/
theorem bind_setClass (name : Token) (kind : ClassKind) (state : State) :
    (define name (declare name { state with class_ := kind }).2).2 =
      { (define name (declare name state).2).2 with class_ := kind } := by
  simp only [define_eq, declare_eq]
  rfl

/-- The superclass of a class passes, and the scope of its methods is opened. -/
theorem resolveSuperclass_passes (name : Token) (superclass : Option Expr)
    (methods : List FunctionDecl)
    (h : Fits { state with class_ := (place.enterClass superclass).classKind }
      (place.enterClass superclass))
    (hidle : place.initializing = none) (hstate : state.class_ = .base) :
    Passes (inheritanceSites (place.enterClass superclass) name superclass ++
        Expr.sitesOpt (place.enterClass superclass) superclass)
      ((place.enterClass superclass).enterMethods superclass methods) state
      (resolveSuperclass name superclass state).2 := by
  cases superclass with
  | none => exact .silent ⟨h.function, hstate, h.depth, h.knows⟩ rfl rfl
  | some e =>
      have hnote : ∃ middle : State,
          Passes (inheritanceSites (place.enterClass (some e)) name (some e))
            (place.enterClass (some e)) state { middle with class_ := .derived } ∧
          (resolveSuperclass name (some e) state).2 =
            (enter "super" .defined (openScope
              (resolveExpr e { middle with class_ := .derived }).2).2).2 := by
        cases e with
        | var id superName =>
            by_cases hsame : superName.lexeme = name.lexeme
            · refine ⟨(note .inheritsFromItself superName state).2, ⟨⟨h.function, h.class_, h.depth,
                h.knows⟩, .report (by simp) ?_ rfl⟩, ?_⟩
              · simp [violations, ScopeFault.all, ScopeFault.violations, ScopeFault.arisesAt, hsame,
                  Site.token, note_eq]
              · simp only [resolveSuperclass, if_pos hsame]
                rfl
            · refine ⟨state, ⟨⟨h.function, h.class_, h.depth, h.knows⟩, .report (by simp) ?_ rfl⟩,
                ?_⟩
              · simp [violations, ScopeFault.all, ScopeFault.violations, ScopeFault.arisesAt, hsame]
              · simp only [resolveSuperclass, if_neg hsame]
                rfl
        | _ =>
            exact ⟨state, .silent ⟨h.function, h.class_, h.depth, h.knows⟩ rfl rfl, rfl⟩
      obtain ⟨middle, hpasses, hresolve⟩ := hnote
      have hexpr := hpasses.append (resolveExpr_passes e hpasses.fits)
      have hopened := hexpr.fits.openedWith hidle (.superclass methods) "super"
      rw [hresolve]
      have hscope : Effect [] (resolveExpr e { middle with class_ := .derived }).2
          (enter "super" .defined (openScope
            (resolveExpr e { middle with class_ := .derived }).2).2).2 := by
        rw [enter_eq]
        exact .silent rfl rfl
      have heffect := hexpr.effect.append hscope
      rw [List.append_nil] at heffect
      exact ⟨hopened, heffect⟩

/-- The checks of a `return` come before its value. -/
theorem resolveReturn_eq (keyword : Token) (value : Option Expr) (state : State) :
    (resolveStmt (.return_ keyword value) state).2 =
      (resolveExprOpt value
        { state with
          errors := state.errors ++
            ((if state.function = .none then [⟨.returnOutsideFunction, keyword⟩] else []) ++
              if value.isSome ∧ state.function = .initializer then
                [⟨.valueFromInitializer, keyword⟩] else []) }).2 := by
  obtain ⟨scopes, distances, errors, kind, class_⟩ := state
  rw [resolveStmt]
  cases kind <;> cases value <;> simp <;> rfl

theorem checkReturn_passes (h : Fits state place) (keyword : Token) (value : Option Expr) :
    Passes [⟨place, .return_ keyword value.isSome⟩] place state
      { state with
        errors := state.errors ++
          ((if state.function = .none then [⟨.returnOutsideFunction, keyword⟩] else []) ++
            if value.isSome ∧ state.function = .initializer then
              [⟨.valueFromInitializer, keyword⟩] else []) } := by
  refine ⟨h.congr rfl rfl rfl, .report (by simp) ?_ rfl⟩
  rw [h.function]
  cases hfunctions : place.functions with
  | nil => simp [Place.functionKind, hfunctions, violations, ScopeFault.all,
      ScopeFault.violations, ScopeFault.arisesAt, Place.inInitializer, Site.token]
  | cons nearest outer =>
      cases nearest with
      | function declaration => simp [Place.functionKind, hfunctions, violations, ScopeFault.all,
          ScopeFault.violations, ScopeFault.arisesAt, Place.inInitializer]
      | method declaration =>
          cases value <;> cases hinit : declaration.isInitializer <;>
            simp [Place.functionKind, hfunctions, violations, ScopeFault.all,
              ScopeFault.violations, ScopeFault.arisesAt, Place.inInitializer, Site.token,
              methodKind, hinit]

mutual

theorem resolveStmt_passes (s : Stmt) {place : Place} {state : State} (h : Fits state place)
    (hidle : place.initializing = none) :
    Passes (s.sites place) (place.after s) state (resolveStmt s state).2 := by
  match s with
  | .expression value | .print value =>
      have hvalue := resolveExpr_passes value h
      rw [Place.after, Stmt.declares, declare_nil]
      exact ⟨hvalue.fits.next, hvalue.effect⟩
  | .var name initializer =>
      have hdeclare := declare_passes h hidle name
      have hvalue := resolveExprOpt_passes initializer hdeclare.fits
      have hdefine := define_passes hvalue.fits hidle name rfl
      have hpasses := (hdeclare.append hvalue).append hdefine
      rw [List.append_nil] at hpasses
      exact ⟨hpasses.fits.next, hpasses.effect⟩
  | .block body =>
      have hopened := h.opened hidle (.block body)
      have hbody := resolveStmts_passes body hopened hidle
      have hafter := (place.enter (.block body) []).beside_afterAll body
      rw [Place.after, Stmt.declares, declare_nil]
      refine ⟨(hbody.fits.closed (hafter.initializing.trans hidle) hidle ?_ rfl ?_ ?_).next,
        hbody.effect.congr rfl rfl rfl rfl⟩
      · rw [hafter.scopes]
        rfl
      · refine hbody.fits.function.trans ?_
        rw [Place.functionKind, hafter.functions]
        rfl
      · refine hbody.fits.class_.trans ?_
        rw [Place.classKind, hafter.classes]
        rfl
  | .function declaration =>
      have hname := bind_passes h hidle declaration.name
      have hbody := resolveFunction_passes declaration .function .function hname.fits hidle rfl
      have hpasses := hname.append hbody
      exact ⟨hpasses.fits.next, hpasses.effect⟩
  | .class_ name superclass methods =>
      have hname := bind_passes h hidle name
      have hinside : Fits { (define name (declare name { state with class_ := .base }).2).2 with
            class_ := ((place.declare [name.lexeme]).enterClass superclass).classKind }
          ((place.declare [name.lexeme]).enterClass superclass) := by
        rw [bind_setClass]
        exact ⟨hname.fits.function, rfl, hname.fits.depth, hname.fits.knows⟩
      have hbase : Effect [⟨place, .declaration name⟩] state
          (define name (declare name { state with class_ := .base }).2).2 := by
        rw [bind_setClass]
        exact hname.effect.congr rfl rfl rfl rfl
      have hsuper := resolveSuperclass_passes name superclass methods hinside hidle
        (by rw [bind_setClass])
      have hmethods := resolveMethods_passes methods hsuper.fits
        (by cases superclass <;> exact hidle)
      have heffect := hbase.append (hsuper.effect.append hmethods.effect)
      rw [Stmt.sites]
      cases superclass with
      | none =>
          refine ⟨⟨hmethods.fits.function, h.class_, hmethods.fits.depth, hmethods.fits.knows⟩, ?_⟩
          exact heffect.congr rfl rfl rfl rfl
      | some superclass =>
          have hclosed : Fits (resolveStmt (.class_ name (some superclass) methods) state).2
              (place.declare [name.lexeme]) :=
            hmethods.fits.closed hidle hidle rfl rfl hmethods.fits.function h.class_
          exact ⟨hclosed.next, heffect.congr rfl rfl rfl rfl⟩
  | .ifThen condition thenBranch =>
      have hcondition := resolveExpr_passes condition h
      have hthen := resolveStmt_passes thenBranch (hcondition.fits.branch 0) hidle
      have hpasses := hcondition.append hthen
      exact ⟨⟨hpasses.fits.function, hpasses.fits.class_, hpasses.fits.depth, hpasses.fits.knows⟩,
        hpasses.effect⟩
  | .ifElse condition thenBranch elseBranch =>
      have hcondition := resolveExpr_passes condition h
      have hthen := resolveStmt_passes thenBranch (hcondition.fits.branch 0) hidle
      have hthen' : Fits (resolveStmt thenBranch (resolveExpr condition state).2).2
          (place.declare thenBranch.declares) :=
        ⟨hthen.fits.function, hthen.fits.class_, hthen.fits.depth, hthen.fits.knows⟩
      have helse := resolveStmt_passes elseBranch (hthen'.branch 1) hidle
      have hpasses := (hcondition.append hthen).append helse
      rw [Place.after, Stmt.declares, ← declare_declare]
      exact ⟨⟨hpasses.fits.function, hpasses.fits.class_, hpasses.fits.depth, hpasses.fits.knows⟩,
        hpasses.effect⟩
  | .while_ condition body =>
      have hcondition := resolveExpr_passes condition h
      have hbody := resolveStmt_passes body (hcondition.fits.branch 0) hidle
      have hpasses := hcondition.append hbody
      exact ⟨⟨hpasses.fits.function, hpasses.fits.class_, hpasses.fits.depth, hpasses.fits.knows⟩,
        hpasses.effect⟩
  | .return_ keyword value =>
      have hchecks := checkReturn_passes h keyword value
      have hpasses := hchecks.append (resolveExprOpt_passes value hchecks.fits)
      rw [resolveReturn_eq, Place.after, Stmt.declares, declare_nil]
      exact ⟨hpasses.fits.next, hpasses.effect⟩

theorem resolveStmts_passes (statements : List Stmt) {place : Place} {state : State}
    (h : Fits state place) (hidle : place.initializing = none) :
    Passes (Stmt.sitesAll place statements) (place.afterAll statements) state
      (resolveStmts statements state).2 := by
  match statements with
  | [] => exact .silent h rfl rfl
  | s :: rest =>
      have hfirst := resolveStmt_passes s h hidle
      have hrest := resolveStmts_passes rest hfirst.fits hidle
      exact hfirst.append hrest

theorem resolveFunction_passes (declaration : FunctionDecl) (form : FunctionDecl → Enclosing)
    (kind : FunctionKind) {place : Place} {state : State} (h : Fits state place)
    (hidle : place.initializing = none)
    (hkind : (place.enterFunction form declaration).functionKind = kind) :
    Passes (declaration.sites place form) place state
      (resolveFunction kind declaration state).2 := by
  match declaration with
  | ⟨name, parameters, body⟩ =>
      exact inFunction_passes h hidle form ⟨name, parameters, body⟩ kind hkind
        fun hfits hinside => resolveStmts_passes body hfits hinside

theorem resolveMethods_passes (methods : List FunctionDecl) {place : Place} {state : State}
    (h : Fits state place) (hidle : place.initializing = none) :
    Passes (FunctionDecl.sitesAll place methods) place state (resolveMethods methods state).2 := by
  match methods with
  | [] => exact .silent h rfl rfl
  | method :: rest =>
      have hopened := h.openedWith hidle (.receiver method) "this"
      have hmethod := resolveFunction_passes method .method (methodKind method) hopened hidle rfl
      have hclosed : Fits (closeScope (resolveFunction (methodKind method) method
          (enter "this" .defined (openScope state).2).2).2).2 place :=
        hmethod.fits.closed hidle hidle rfl rfl hmethod.fits.function hmethod.fits.class_
      have hrest := resolveMethods_passes rest hclosed.next hidle
      have hthis : Effect [] state (enter "this" .defined (openScope state).2).2 := by
        rw [enter_eq]
        exact .silent rfl rfl
      have hfirst : Effect (method.sites (place.enter (.receiver method) ["this"]) .method) state
          (closeScope (resolveFunction (methodKind method) method
            (enter "this" .defined (openScope state).2).2).2).2 :=
        (hthis.append hmethod.effect).congr rfl rfl rfl rfl
      exact ⟨⟨hrest.fits.function, hrest.fits.class_, hrest.fits.depth, hrest.fits.knows⟩,
        hfirst.append hrest.effect⟩

end

/-! ## Programs -/

theorem resolve_passes (program : List Stmt) :
    Passes (programSites program) (Place.top.afterAll program) .start
      (resolveStmts program .start).2 :=
  resolveStmts_passes program fits_start rfl

section

variable {program : List Stmt} {distances : Distances}

theorem resolve_perm (program : List Stmt) :
    (resolve program).2.Perm (violations (programSites program)) := by
  obtain ⟨found, hfound, hperm⟩ := (resolve_passes program).effect.errors
  have herrors : (resolve program).2 = found := hfound
  rwa [herrors]

/-- A program breaks no rule exactly if it has distances and nothing else is reported. -/
theorem lawful_iff_resolve (program : List Stmt) :
    (∀ occurrence ∈ programSites program, ∀ fault : ScopeFault,
      fault.arisesAt occurrence = false) ↔ ∃ distances, resolve program = (distances, []) := by
  have hperm := resolve_perm program
  rw [← violations_eq_nil_iff]
  constructor
  · intro hnil
    rw [hnil] at hperm
    exact ⟨(resolve program).1, Prod.ext rfl hperm.eq_nil⟩
  · rintro ⟨distances, hresolve⟩
    rw [hresolve] at hperm
    exact hperm.nil_eq.symm

/-- The distances of a program are those of its uses at their places. -/
theorem matched_of_resolve (hresolve : (resolve program).1 = distances)
    (hnodup : (useNodes (programSites program)).Nodup) {place : Place} {u : Use}
    (hmem : ⟨place, .use u⟩ ∈ programSites program) : distances[u.node]? = place.matched? u := by
  have hmatched := (resolve_passes program).effect.matched hnodup place u hmem
  rw [← hresolve]
  exact hmatched.trans (Option.or_none ..)

theorem untouched_of_resolve (hresolve : (resolve program).1 = distances) {node : NodeId}
    (hnode : node ∉ useNodes (programSites program)) : distances[node]? = none := by
  rw [← hresolve]
  exact (resolve_passes program).effect.untouched node hnode

end

/-- The errors of the resolver are the violations of the static rules, each as often as a site
breaks the rule, with the token and the message of the rule; and there are none exactly if no site
of the program breaks a rule. -/
theorem resolve_reports_violations (program : List Stmt) :
    ((resolve program).2.map fun error => (error.token, error.fault.message)).Perm
        ((violations (programSites program)).map fun error => (error.token, error.fault.message)) ∧
      ((resolve program).2 = [] ↔ ∀ occurrence ∈ programSites program, ∀ fault : ScopeFault,
        fault.arisesAt occurrence = false) := by
  obtain ⟨found, hfound, hperm⟩ := (resolve_passes program).effect.errors
  have herrors : (resolve program).2 = found := hfound
  rw [herrors]
  refine ⟨hperm.map _, ?_⟩
  rw [← violations_eq_nil_iff]
  constructor
  · rintro rfl
    exact hperm.nil_eq.symm
  · intro hnil
    rw [hnil] at hperm
    exact hperm.eq_nil

end Lox.Scope
