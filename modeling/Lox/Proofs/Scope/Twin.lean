import Lox.Proofs.Scope.Checking
import Lox.Proofs.Scope.Sites
import Lox.Proofs.Syntax.Twin

/-!
# Scopes of twins

If the changes of names keep the names of a program apart, the sites of its twin stand at places
with the same scopes under other names. Every use is matched at the same distance, and a site of the
twin breaks a rule only if the site of the program does.
-/

namespace Lox

open Scope (Frame Place Enclosing ScopeFault)

/-- The renamers keep names apart, also those of different scopes: what is renamed in the one is not
mistaken for a name of the other. -/
structure Pairing.Apart (pairing : Pairing) : Prop where
  same : pairing.renamer .same
  this_ : pairing.name "this"
  super_ : pairing.name "super"
  apart : ∀ r r', pairing.renamer r → pairing.renamer r' → ∀ a b, pairing.name a →
    pairing.name b → r.rename a = r'.rename b → a = b

variable {pairing : Pairing} {scopes : List Renamer}

namespace Renamer

theorem allowed_atDistance (hapart : pairing.Apart) (h : ∀ r ∈ scopes, pairing.renamer r)
    (distance : Option Nat) : pairing.renamer (atDistance scopes distance) := by
  cases distance with
  | none => exact hapart.same
  | some distance =>
      rw [atDistance, List.getD_eq_getElem?_getD]
      cases hscope : scopes[distance]? with
      | none => exact hapart.same
      | some r => exact h r (List.mem_of_getElem? hscope)

theorem innermost_eq (scopes : List Renamer) : innermost scopes = atDistance scopes (some 0) := by
  cases scopes <;> rfl

theorem allowed_innermost (hapart : pairing.Apart) (h : ∀ r ∈ scopes, pairing.renamer r) :
    pairing.renamer (innermost scopes) := by
  rw [innermost_eq]
  exact allowed_atDistance hapart h _

end Renamer

namespace Scope

/-! ## Twin places -/

/-- The frames of one scope, whose names are renamed. -/
structure Frame.Twin (pairing : Pairing) (renamer : Renamer) (frame frame' : Frame) : Prop where
  names : frame'.names = frame.names.map renamer.rename
  known : ∀ name ∈ frame.names, pairing.name name

/-- Scopes one by one, the innermost first. -/
inductive TwinFrames (pairing : Pairing) : List Renamer → List Frame → List Frame → Prop where
  | nil : TwinFrames pairing [] [] []
  | cons {renamer : Renamer} {scopes : List Renamer} {frame frame' : Frame}
      {frames frames' : List Frame} :
      frame.Twin pairing renamer frame' → TwinFrames pairing scopes frames frames' →
        TwinFrames pairing (renamer :: scopes) (frame :: frames) (frame' :: frames')

theorem TwinFrames.declare {frames frames' : List Frame} (h : TwinFrames pairing scopes frames frames')
    {names : List String} (hknown : ∀ name ∈ names, pairing.name name) :
    TwinFrames pairing scopes (Place.declareIn names frames)
      (Place.declareIn (names.map (Renamer.innermost scopes).rename) frames') := by
  cases h with
  | nil => exact .nil
  | cons hframe hrest =>
      refine .cons ⟨?_, ?_⟩ hrest
      · rw [List.map_append, hframe.names]
        rfl
      · intro name hname
        rcases List.mem_append.mp hname with hname | hname
        · exact hframe.known name hname
        · exact hknown name hname

/-- Functions of one form that initialize instances both or neither. -/
inductive Enclosing.Twin : Enclosing → Enclosing → Prop where
  | function (declaration declaration' : FunctionDecl) :
      Enclosing.Twin (.function declaration) (.function declaration')
  | method {declaration declaration' : FunctionDecl} :
      declaration'.isInitializer = declaration.isInitializer →
        Enclosing.Twin (.method declaration) (.method declaration')

/-- Places in twin scopes, functions and classes. The way to them does not count. -/
structure Place.Twin (pairing : Pairing) (scopes : List Renamer) (place place' : Place) : Prop where
  renamers : ∀ r ∈ scopes, pairing.renamer r
  frames : TwinFrames pairing scopes place.scopes place'.scopes
  functions : List.Forall₂ Enclosing.Twin place.functions place'.functions
  classes : place'.classes.map Option.isSome = place.classes.map Option.isSome
  initializing : place'.initializing =
    place.initializing.map (Renamer.innermost scopes).rename
  initialized : ∀ name, place.initializing = some name → pairing.name name

namespace Place.Twin

variable {place place' : Place}

theorem top (pairing : Pairing) : Place.top.Twin pairing [] .top :=
  ⟨by simp, .nil, .nil, rfl, rfl, by simp [Place.top]⟩

/-- The way to a place does not count. -/
theorem moved (h : place.Twin pairing scopes place') (path path' : List Nat) :
    Place.Twin pairing scopes { place with path := path } { place' with path := path' } :=
  ⟨h.renamers, h.frames, h.functions, h.classes, h.initializing, h.initialized⟩

theorem branch (h : place.Twin pairing scopes place') (index : Nat) :
    (place.branch index).Twin pairing scopes (place'.branch index) :=
  h.moved _ _

theorem next (h : place.Twin pairing scopes place') :
    place.next.Twin pairing scopes place'.next :=
  h.moved _ _

theorem declare (h : place.Twin pairing scopes place') {names : List String}
    (hknown : ∀ name ∈ names, pairing.name name) :
    (place.declare names).Twin pairing scopes
      (place'.declare (names.map (Renamer.innermost scopes).rename)) :=
  ⟨h.renamers, h.frames.declare hknown, h.functions, h.classes, h.initializing, h.initialized⟩

/-- One more name is declared. -/
theorem declareName (h : place.Twin pairing scopes place') {name name' : Token}
    (hname : pairing.Named (.innermost scopes) name name') :
    (place.declare [name.lexeme]).Twin pairing scopes (place'.declare [name'.lexeme]) := by
  rw [hname.lexeme]
  refine h.declare fun other hother => ?_
  rw [List.mem_singleton.mp hother]
  exact hname.known

theorem enter (h : place.Twin pairing scopes place') (hidle : place.initializing = none)
    {renamer : Renamer} (hrenamer : pairing.renamer renamer) (region region' : Region)
    {names : List String} (hknown : ∀ name ∈ names, pairing.name name) :
    (place.enter region names).Twin pairing (renamer :: scopes)
      (place'.enter region' (names.map renamer.rename)) := by
  have hidle' := h.initializing
  rw [hidle] at hidle'
  refine ⟨?_, .cons ⟨rfl, hknown⟩ h.frames, h.functions, h.classes, ?_, h.initialized⟩
  · rintro r (_ | ⟨_, hr⟩)
    · exact hrenamer
    · exact h.renamers r hr
  · simp [Place.enter, hidle, hidle']

theorem enterFunction (h : place.Twin pairing scopes place') (hidle : place.initializing = none)
    {renamer : Renamer} (hrenamer : pairing.renamer renamer)
    {form : FunctionDecl → Enclosing} {declaration declaration' : FunctionDecl}
    (hform : (form declaration).Twin (form declaration')) :
    (place.enterFunction form declaration).Twin pairing (renamer :: scopes)
      (place'.enterFunction form declaration') := by
  have hnone : ∀ name ∈ ([] : List String), pairing.name name := by simp
  have hentered := h.enter hidle hrenamer (.function declaration) (.function declaration') hnone
  exact ⟨hentered.renamers, hentered.frames, .cons hform h.functions, hentered.classes,
    hentered.initializing, hentered.initialized⟩

theorem enterClass (h : place.Twin pairing scopes place') {superclass superclass' : Option Expr}
    (hsuper : superclass'.isSome = superclass.isSome) :
    (place.enterClass superclass).Twin pairing scopes (place'.enterClass superclass') := by
  refine ⟨h.renamers, h.frames, h.functions, ?_, h.initializing, h.initialized⟩
  simp [Place.enterClass, hsuper, h.classes]

theorem enterMethods (h : place.Twin pairing scopes place') (hidle : place.initializing = none)
    (hapart : pairing.Apart) {superclass superclass' : Option Expr}
    (hsuper : superclass'.isSome = superclass.isSome) (methods methods' : List FunctionDecl) :
    (place.enterMethods superclass methods).Twin pairing (methodScopes superclass scopes)
      (place'.enterMethods superclass' methods') := by
  rw [Place.enterMethods, Place.enterMethods, methodScopes, hsuper]
  split
  · have hknown : ∀ name ∈ ["super"], pairing.name name := by simp [hapart.super_]
    exact h.enter hidle hapart.same (.superclass methods) (.superclass methods') hknown
  · exact h.branch 0

theorem initializerOf (h : place.Twin pairing scopes place') {name name' : Token}
    (hname : pairing.Named (.innermost scopes) name name') :
    (place.initializerOf name.lexeme).Twin pairing scopes (place'.initializerOf name'.lexeme) := by
  have hempty : place'.scopes.isEmpty = place.scopes.isEmpty := by
    have hframes := h.frames
    generalize place.scopes = frames at hframes ⊢
    generalize place'.scopes = frames' at hframes ⊢
    cases hframes <;> rfl
  rw [Place.initializerOf, Place.initializerOf, hempty]
  split
  · exact h
  · refine ⟨h.renamers, h.frames, h.functions, h.classes, by simp [hname.lexeme], ?_⟩
    rintro _ ⟨⟩
    exact hname.known

theorem classKind (h : place.Twin pairing scopes place') : place'.classKind = place.classKind := by
  have hclasses := h.classes
  simp only [Place.classKind]
  cases hplace : place.classes with
  | nil =>
      rw [hplace, List.map_nil, List.map_eq_nil_iff] at hclasses
      rw [hclasses]
  | cons superclass rest =>
      rw [hplace, List.map_cons, List.map_eq_cons_iff] at hclasses
      obtain ⟨superclass', rest', hplace', hsome, -⟩ := hclasses
      rw [hplace']
      cases superclass <;> cases superclass' <;> first | rfl | simp at hsome

end Place.Twin

/-! ## Distances -/

/-- A renamed name is found in the scope in which the name is found. -/
theorem TwinFrames.findIdx? (hapart : pairing.Apart) {frames frames' : List Frame}
    (h : TwinFrames pairing scopes frames frames') (hscopes : ∀ r ∈ scopes, pairing.renamer r)
    {name : String} (hname : pairing.name name) :
    let found := frames.findIdx? fun frame => decide (name ∈ frame.names)
    frames'.findIdx? (fun frame =>
      decide ((Renamer.atDistance scopes found).rename name ∈ frame.names)) = found := by
  induction h with
  | nil => rfl
  | @cons renamer scopes frame frame' frames frames' hframe _ ih =>
      have hrest := fun r hr => hscopes r (List.mem_cons_of_mem _ hr)
      simp only [List.findIdx?_cons, hframe.names]
      by_cases hmem : name ∈ frame.names
      · simp only [hmem, decide_true, if_true]
        have hmem' : renamer.rename name ∈ frame.names.map renamer.rename :=
          List.mem_map_of_mem hmem
        simp [Renamer.atDistance, hmem']
      · have hnone : ∀ found, (Renamer.atDistance scopes found).rename name ∉
            frame.names.map renamer.rename := by
          intro found hcaught
          obtain ⟨other, hother, heq⟩ := List.mem_map.mp hcaught
          have hsame := hapart.apart _ _ (hscopes renamer List.mem_cons_self)
            (Renamer.allowed_atDistance hapart hrest found) _ _ (hframe.known other hother) hname heq
          exact hmem (hsame ▸ hother)
        have hnext := ih hrest
        generalize frames.findIdx? (fun frame => decide (name ∈ frame.names)) = found at hnext ⊢
        have hstep : Renamer.atDistance (renamer :: scopes) (found.map (· + 1)) =
            Renamer.atDistance scopes found := by
          cases found <;> rfl
        simp only [hmem, decide_false, Bool.false_eq_true, if_false, hstep, hnone found]
        exact congrArg (Option.map (· + 1)) hnext

namespace Place.Twin

variable {place place' : Place}

/-- A renamed name is being initialized only if the name is. -/
theorem of_initializing (h : place.Twin pairing scopes place') (hapart : pairing.Apart)
    {r : Renamer} (hr : pairing.renamer r) {name : String} (hname : pairing.name name)
    (hinitializing : place'.initializing = some (r.rename name)) :
    place.initializing = some name := by
  rw [h.initializing, Option.map_eq_some_iff] at hinitializing
  obtain ⟨other, hother, heq⟩ := hinitializing
  have hsame := hapart.apart _ _ (Renamer.allowed_innermost hapart h.renamers) hr _ _
    (h.initialized other hother) hname heq
  rw [hother, hsame]

/-- A renamed name has the distance of the name. -/
theorem distance? (h : place.Twin pairing scopes place') (hapart : pairing.Apart) {name : String}
    (hname : pairing.name name) :
    place'.distance? ((Renamer.atDistance scopes (place.distance? name)).rename name) =
      place.distance? name := by
  by_cases hinitializing : place.initializing = some name
  · have hinitializing' : place'.initializing = some ((Renamer.innermost scopes).rename name) := by
      rw [h.initializing, hinitializing]
      rfl
    simp only [Place.distance?, hinitializing, if_true, ← Renamer.innermost_eq, hinitializing']
  · have hnot : ∀ found, place'.initializing ≠
        some ((Renamer.atDistance scopes found).rename name) := fun found heq =>
      hinitializing (h.of_initializing hapart (Renamer.allowed_atDistance hapart h.renamers found)
        hname heq)
    simp only [Place.distance?, hinitializing, if_false, hnot]
    exact h.frames.findIdx? hapart h.renamers hname

/-- Twin uses are matched at one distance. -/
theorem matched? (h : place.Twin pairing scopes place') (hapart : pairing.Apart) {u u' : Use}
    (hkind : u'.kind = u.kind) (hname : pairing.name u.token.lexeme)
    (hlexeme : u'.token.lexeme =
      (Renamer.atDistance scopes (place.matched? u)).rename u.token.lexeme) :
    place'.matched? u' = place.matched? u := by
  have hclass := h.classKind
  have hdistance := h.distance? hapart hname
  obtain ⟨kind, token, node⟩ := u
  obtain ⟨kind', token', node'⟩ := u'
  cases hkind
  simp only [Place.matched?, hclass] at hlexeme ⊢
  split <;> simp_all

end Place.Twin

end Scope

/-! ## Twin sites -/

/-- Sites of which the second breaks a rule only if the first does. Uses go together and are matched
at one distance. -/
structure Occurrence.Twin (pairing : Pairing) (o o' : Occurrence) : Prop where
  faults : ∀ fault : ScopeFault, fault.arisesAt o' = true → fault.arisesAt o = true
  use : ∀ u, o.site = .use u → ∃ u', o'.site = .use u' ∧
    pairing.matched u.node u'.node (o.place.matched? u) ∧
      o'.place.matched? u' = o.place.matched? u
  plain : (∀ u, o.site ≠ .use u) → ∀ u, o'.site ≠ .use u

/-- Uses of one kind that go together. -/
def Use.Twin (pairing : Pairing) (scopes : List Renamer) (u u' : Use) : Prop :=
  u'.kind = u.kind ∧ ∃ distance, pairing.Use scopes u.node u'.node distance u.token u'.token

theorem Pairing.Kept.named {name name' : Token} (h : pairing.Kept scopes name name') :
    pairing.Named (.innermost scopes) name name' :=
  ⟨h.known, h.same.lexeme.trans h.fixed.symm, h.same.token⟩

namespace Scope.Place.Twin

variable {place place' : Place}

theorem isEmpty_classes (h : place.Twin pairing scopes place') :
    place'.classes.isEmpty = place.classes.isEmpty := by
  have hkind : ∀ place : Place, place.classes.isEmpty = decide (place.classKind = .none) := by
    intro place
    rw [Place.classKind]
    cases place.classes with
    | nil => rfl
    | cons superclass rest => cases superclass <;> rfl
  rw [hkind, hkind, h.classKind]

theorem inBaseClass (h : place.Twin pairing scopes place') :
    place'.inBaseClass = place.inBaseClass := by
  have hkind : ∀ place : Place, place.inBaseClass = decide (place.classKind = .base) := by
    intro place
    rw [Place.inBaseClass, Place.classKind]
    cases place.classes with
    | nil => rfl
    | cons superclass rest => cases superclass <;> rfl
  rw [hkind, hkind, h.classKind]

/-- A use and its twin. -/
theorem useSite (h : place.Twin pairing scopes place') (hapart : pairing.Apart) {u u' : Use}
    (huse : u.Twin pairing scopes u')
    (hmatched : ∀ distance, pairing.matched u.node u'.node distance →
      distance = place.matched? u) :
    Occurrence.Twin pairing ⟨place, .use u⟩ ⟨place', .use u'⟩ := by
  obtain ⟨hkind, distance, huse⟩ := huse
  have hdistance := hmatched distance huse.matched
  have hlexeme := huse.lexeme
  have hallowed := Renamer.allowed_atDistance hapart h.renamers distance
  refine ⟨fun fault hfault => ?_, ?_, fun hplain => absurd rfl (hplain u)⟩
  · obtain ⟨kind, token, node⟩ := u
    obtain ⟨kind', token', node'⟩ := u'
    cases hkind
    cases fault <;> cases kind <;>
      simp only [ScopeFault.arisesAt, decide_eq_true_eq, Bool.false_eq_true] at hfault ⊢
    · rw [hlexeme] at hfault
      exact h.of_initializing hapart hallowed huse.known hfault
    · rwa [← h.isEmpty_classes]
    · rwa [← h.isEmpty_classes]
    · rwa [← h.inBaseClass]
  · rintro _ ⟨⟩
    refine ⟨u', rfl, by rw [← hdistance]; exact huse.matched, ?_⟩
    rw [hdistance] at hlexeme
    exact h.matched? hapart hkind huse.known hlexeme

/-- Uses at one place. -/
theorem useSites (h : place.Twin pairing scopes place') (hapart : pairing.Apart)
    {uses uses' : List Use} (huses : List.Forall₂ (Use.Twin pairing scopes) uses uses')
    (hmatched : ∀ u ∈ uses, ∀ id' distance, pairing.matched u.node id' distance →
      distance = place.matched? u) :
    List.Forall₂ (Occurrence.Twin pairing) (uses.map fun u => ⟨place, .use u⟩)
      (uses'.map fun u => ⟨place', .use u⟩) := by
  induction huses with
  | nil => exact .nil
  | cons huse _ ih =>
      exact .cons (h.useSite hapart huse fun distance => hmatched _ List.mem_cons_self _ distance)
        (ih fun u hu => hmatched u (List.mem_cons_of_mem _ hu))

theorem declarationSite (h : place.Twin pairing scopes place') {name name' : Token}
    (hname : pairing.Named (.innermost scopes) name name') :
    Occurrence.Twin pairing ⟨place, .declaration name⟩ ⟨place', .declaration name'⟩ := by
  refine ⟨fun fault hfault => ?_, by simp, by simp⟩
  cases fault <;> simp only [ScopeFault.arisesAt, Bool.false_eq_true] at hfault ⊢
  have hframes := h.frames
  simp only [Place.hasDeclared] at hfault ⊢
  generalize place.scopes = frames at hframes hfault ⊢
  generalize place'.scopes = frames' at hframes hfault ⊢
  cases hframes with
  | nil => simp at hfault
  | @cons renamer _ frame frame' _ _ hframe _ =>
      simp only [decide_eq_true_eq, hframe.names, hname.lexeme] at hfault ⊢
      exact (List.mem_map_of_injective renamer.injective).mp hfault

theorem returnSite (h : place.Twin pairing scopes place') (keyword keyword' : Token)
    (hasValue : Bool) :
    Occurrence.Twin pairing ⟨place, .return_ keyword hasValue⟩
      ⟨place', .return_ keyword' hasValue⟩ := by
  have hfunctions := h.functions
  refine ⟨fun fault hfault => ?_, by simp, by simp⟩
  cases fault <;> simp only [ScopeFault.arisesAt, Bool.false_eq_true, Place.inInitializer,
    Bool.and_eq_true] at hfault ⊢
  all_goals
    generalize place.functions = functions at hfunctions hfault ⊢
    generalize place'.functions = functions' at hfunctions hfault ⊢
  · cases hfunctions with
    | nil => rfl
    | cons _ _ => simp at hfault
  · cases hfunctions with
    | nil => simp at hfault
    | cons hfunction _ =>
        cases hfunction with
        | function _ _ => simp at hfault
        | method hsame => simpa [hsame] using hfault

theorem inheritanceSite (hapart : pairing.Apart) (hscopes : ∀ r ∈ scopes, pairing.renamer r)
    {name name' superName superName' : Token} {id id' : NodeId} {distance : Option Nat}
    (hname : pairing.Kept scopes name name')
    (hsuper : pairing.Use scopes id id' distance superName superName') :
    Occurrence.Twin pairing ⟨place, .inheritance name superName⟩
      ⟨place', .inheritance name' superName'⟩ := by
  refine ⟨fun fault hfault => ?_, by simp, by simp⟩
  cases fault <;> simp only [ScopeFault.arisesAt, Bool.false_eq_true, decide_eq_true_eq] at hfault ⊢
  rw [hsuper.lexeme, hname.same.lexeme] at hfault
  exact hapart.apart _ _ (Renamer.allowed_atDistance hapart hscopes distance) hapart.same _ _
    hsuper.known hname.known hfault

theorem parameterSites (h : place.Twin pairing scopes place') {parameters parameters' : List Token}
    (hparameters : List.Forall₂ (pairing.Named (.innermost scopes)) parameters parameters') :
    List.Forall₂ (Occurrence.Twin pairing) (parameterSites place parameters)
        (Lox.parameterSites place' parameters') ∧
      (place.declare (parameters.map Token.lexeme)).Twin pairing scopes
        (place'.declare (parameters'.map Token.lexeme)) := by
  induction hparameters generalizing place place' with
  | nil => exact ⟨.nil, by simpa only [List.map_nil, declare_nil] using h⟩
  | cons hparameter _ ih =>
      obtain ⟨hsites, hdeclared⟩ := ih (h.declareName hparameter)
      refine ⟨.cons (h.declarationSite hparameter) hsites, ?_⟩
      rwa [declare_declare, declare_declare] at hdeclared

end Scope.Place.Twin

/-! ## Trees -/

mutual

theorem Expr.Twin.uses {e e' : Expr} (h : e.Twin pairing scopes e') :
    List.Forall₂ (Use.Twin pairing scopes) e.uses e'.uses := by
  cases h with
  | literal value _ => exact .nil
  | grouping _ hinner => exact hinner.uses
  | unary _ _ hoperand => exact hoperand.uses
  | binary _ hleft _ hright => exact List.rel_append hleft.uses hright.uses
  | logical _ hleft _ hright => exact List.rel_append hleft.uses hright.uses
  | var huse => exact .cons ⟨rfl, _, huse⟩ .nil
  | assign huse hvalue => exact .cons ⟨rfl, _, huse⟩ hvalue.uses
  | call _ hcallee _ harguments => exact List.rel_append hcallee.uses harguments.usesAll
  | get _ hobject _ => exact hobject.uses
  | set _ hobject _ hvalue => exact List.rel_append hobject.uses hvalue.uses
  | super_ huse _ => exact .cons ⟨rfl, _, huse⟩ .nil
  | this_ huse => exact .cons ⟨rfl, _, huse⟩ .nil

theorem Expr.TwinAll.usesAll {es es' : List Expr} (h : Expr.TwinAll pairing scopes es es') :
    List.Forall₂ (Use.Twin pairing scopes) (Expr.usesAll es) (Expr.usesAll es') := by
  cases h with
  | nil => exact .nil
  | cons he hrest => exact List.rel_append he.uses hrest.usesAll

end

theorem Expr.TwinOpt.usesOpt {e e' : Option Expr} (h : Expr.TwinOpt pairing scopes e e') :
    List.Forall₂ (Use.Twin pairing scopes) (Expr.usesOpt e) (Expr.usesOpt e') := by
  cases h with
  | none => exact .nil
  | some he => exact he.uses

/-- The twin of a statement declares the same names, renamed. -/
theorem Stmt.Twin.declares {s s' : Stmt} (h : s.Twin pairing scopes s') :
    s'.declares = s.declares.map (Renamer.innermost scopes).rename ∧
      ∀ name ∈ s.declares, pairing.name name := by
  induction s using Stmt.declares.induct generalizing s' with
  | case1 name initializer =>
      cases h with
      | var hname _ => simp [Stmt.declares, hname.lexeme, hname.known]
  | case2 declaration =>
      cases h with
      | function hname _ => simp [Stmt.declares, hname.named.lexeme, hname.known]
  | case3 name superclass methods =>
      cases h with
      | class_ hname _ _ => simp [Stmt.declares, hname.named.lexeme, hname.known]
  | case4 condition thenBranch ih =>
      cases h with
      | ifThen _ hthen => simpa only [Stmt.declares] using ih hthen
  | case5 condition thenBranch elseBranch ih ih' =>
      cases h with
      | ifElse _ hthen helse =>
          obtain ⟨hthen, hknown⟩ := ih hthen
          obtain ⟨helse, hknown'⟩ := ih' helse
          simp only [Stmt.declares, hthen, helse, List.map_append, List.mem_append, true_and]
          exact fun name hname => hname.elim (hknown name) (hknown' name)
  | case6 condition body ih =>
      cases h with
      | while_ _ hbody => simpa only [Stmt.declares] using ih hbody
  | case7 value | case8 value | case9 body | case10 keyword value =>
      cases h
      simp [Stmt.declares]

namespace Scope.Place.Twin

variable {place place' : Place}

theorem after (h : place.Twin pairing scopes place') {s s' : Stmt} (hs : s.Twin pairing scopes s') :
    (place.after s).Twin pairing scopes (place'.after s') := by
  obtain ⟨hnames, hknown⟩ := hs.declares
  rw [Place.after, Place.after, hnames]
  exact (h.declare hknown).next

end Scope.Place.Twin

/-- The names of a program are kept apart, and what the pairing says of the distances of its uses is
so. -/
structure Pairing.Suits (pairing : Pairing) (known : List Occurrence) : Prop where
  apart : pairing.Apart
  matched : ∀ place u, ⟨place, .use u⟩ ∈ known → ∀ id' distance,
    pairing.matched u.node id' distance → distance = place.matched? u

variable {known : List Occurrence}

theorem useSites_twin (hsuits : pairing.Suits known) {place place' : Place}
    (hplace : place.Twin pairing scopes place')
    {uses uses' : List Use} (huses : List.Forall₂ (Use.Twin pairing scopes) uses uses')
    (hknown : uses.map (fun u => (⟨place, .use u⟩ : Occurrence)) ⊆ known) :
    List.Forall₂ (Occurrence.Twin pairing) (uses.map fun u => ⟨place, .use u⟩)
      (uses'.map fun u => ⟨place', .use u⟩) :=
  hplace.useSites hsuits.apart huses fun u hu =>
    hsuits.matched place u (hknown (List.mem_map_of_mem hu))

theorem inheritanceSites_twin (hapart : pairing.Apart) {place place' : Place} {name name' : Token}
    {superclass superclass' : Option Expr} (hplace : place.Twin pairing scopes place')
    (hname : pairing.Kept scopes name name')
    (hsuper : Expr.TwinOpt pairing scopes superclass superclass') :
    List.Forall₂ (Occurrence.Twin pairing) (inheritanceSites place name superclass)
      (inheritanceSites place' name' superclass') := by
  cases hsuper with
  | none => exact .nil
  | some he =>
      cases he with
      | var huse =>
          exact .cons (Scope.Place.Twin.inheritanceSite hapart hplace.renamers hname huse) .nil
      | _ => exact .nil

mutual

theorem Stmt.Twin.sites {scopes : List Renamer} {s s' : Stmt} (h : s.Twin pairing scopes s')
    (hsuits : pairing.Suits known) {place place' : Place} (hplace : place.Twin pairing scopes place')
    (hidle : place.initializing = none) (hknown : s.sites place ⊆ known) :
    List.Forall₂ (Occurrence.Twin pairing) (s.sites place) (s'.sites place') := by
  cases h with
  | expression hvalue => exact useSites_twin hsuits hplace hvalue.uses hknown
  | print hvalue => exact useSites_twin hsuits hplace hvalue.uses hknown
  | var hname hinitializer =>
      have hinside := hplace.initializerOf hname
      exact .cons (hplace.declarationSite hname) (useSites_twin hsuits hinside
        hinitializer.usesOpt fun o ho => hknown (List.mem_cons_of_mem _ ho))
  | @block _ renamer body body' hrenamer hbody =>
      have hnone : ∀ name ∈ ([] : List String), pairing.name name := by simp
      exact hbody.sitesAll hsuits (hplace.enter hidle hrenamer (.block body) (.block body') hnone) hidle
        hknown
  | function hname hdeclaration =>
      rw [Stmt.sites, List.cons_subset] at hknown
      exact .cons (hplace.declarationSite hname.named) (hdeclaration.sites hsuits
        (hplace.declareName hname.named) hidle (.function _ _) hknown.2)
  | @class_ _ name name' superclass superclass' methods methods' hname hsuper hmethods =>
      rw [Stmt.sites, List.cons_subset, List.append_subset, List.append_subset] at hknown
      obtain ⟨-, ⟨-, hsuperclass⟩, hmembers⟩ := hknown
      have hinside := (hplace.declareName hname.named).enterClass hsuper.isSome_eq
      refine .cons (hplace.declarationSite hname.named) (List.rel_append (List.rel_append ?_ ?_) ?_)
      · exact inheritanceSites_twin hsuits.apart hinside hname hsuper
      · exact useSites_twin hsuits hinside hsuper.usesOpt hsuperclass
      · have hidle' : (((place.declare [name.lexeme]).enterClass superclass).enterMethods superclass
            methods).initializing = none := by
          rw [Scope.Place.enterMethods]
          split <;> exact hidle
        exact hmethods.sitesAll hsuits
          (hinside.enterMethods hidle hsuits.apart hsuper.isSome_eq methods methods') hidle' hmembers
  | ifThen hcondition hthen =>
      rw [Stmt.sites, List.append_subset] at hknown
      exact List.rel_append (useSites_twin hsuits hplace hcondition.uses hknown.1)
        (hthen.sites hsuits (hplace.branch 0) hidle hknown.2)
  | ifElse hcondition hthen helse =>
      rw [Stmt.sites, List.append_subset, List.append_subset] at hknown
      obtain ⟨⟨hconditions, hthens⟩, helses⟩ := hknown
      obtain ⟨hnames, hdeclared⟩ := hthen.declares
      have hafter := (hplace.declare hdeclared).branch 1
      rw [← hnames] at hafter
      exact List.rel_append (List.rel_append
        (useSites_twin hsuits hplace hcondition.uses hconditions)
        (hthen.sites hsuits (hplace.branch 0) hidle hthens)) (helse.sites hsuits hafter hidle helses)
  | while_ hcondition hbody =>
      rw [Stmt.sites, List.append_subset] at hknown
      exact List.rel_append (useSites_twin hsuits hplace hcondition.uses hknown.1)
        (hbody.sites hsuits (hplace.branch 0) hidle hknown.2)
  | return_ keyword keyword' hvalue =>
      rw [Stmt.sites, List.cons_subset] at hknown
      have hreturn := hplace.returnSite keyword keyword'
      rw [Stmt.sites, Stmt.sites, hvalue.isSome_eq]
      exact .cons (hreturn _) (useSites_twin hsuits hplace hvalue.usesOpt hknown.2)

theorem Stmt.TwinAll.sitesAll {scopes : List Renamer} {statements statements' : List Stmt}
    (h : Stmt.TwinAll pairing scopes statements statements') (hsuits : pairing.Suits known)
    {place place' : Place} (hplace : place.Twin pairing scopes place') (hidle : place.initializing = none)
    (hknown : Stmt.sitesAll place statements ⊆ known) :
    List.Forall₂ (Occurrence.Twin pairing) (Stmt.sitesAll place statements)
      (Stmt.sitesAll place' statements') := by
  cases h with
  | nil => exact .nil
  | cons hs hrest =>
      rw [Stmt.sitesAll, List.append_subset] at hknown
      exact List.rel_append (hs.sites hsuits hplace hidle hknown.1)
        (hrest.sitesAll hsuits (hplace.after hs) hidle hknown.2)

theorem FunctionDecl.Twin.sites {scopes : List Renamer} {declaration declaration' : FunctionDecl}
    (h : declaration.Twin pairing scopes declaration') (hsuits : pairing.Suits known)
    {place place' : Place} (hplace : place.Twin pairing scopes place') (hidle : place.initializing = none)
    {form : FunctionDecl → Enclosing} (hform : (form declaration).Twin (form declaration'))
    (hknown : declaration.sites place form ⊆ known) :
    List.Forall₂ (Occurrence.Twin pairing) (declaration.sites place form)
      (declaration'.sites place' form) := by
  cases h with
  | mk hrenamer _ hparameters hbody =>
      rw [FunctionDecl.sites, List.append_subset] at hknown
      have hinside := hplace.enterFunction hidle hrenamer hform
      obtain ⟨hsites, hdeclared⟩ := hinside.parameterSites hparameters
      exact List.rel_append hsites (hbody.sitesAll hsuits hdeclared hidle hknown.2)

theorem FunctionDecl.TwinAll.sitesAll {scopes : List Renamer} {methods methods' : List FunctionDecl}
    (h : FunctionDecl.TwinAll pairing (.same :: scopes) methods methods')
    (hsuits : pairing.Suits known) {place place' : Place} (hplace : place.Twin pairing scopes place')
    (hidle : place.initializing = none)
    (hknown : FunctionDecl.sitesAll place methods ⊆ known) :
    List.Forall₂ (Occurrence.Twin pairing) (FunctionDecl.sitesAll place methods)
      (FunctionDecl.sitesAll place' methods') := by
  cases h with
  | nil => exact .nil
  | @cons _ method method' _ _ hmethod hrest =>
      rw [FunctionDecl.sitesAll, List.append_subset] at hknown
      have hreceived : ∀ name ∈ ["this"], pairing.name name := by simp [hsuits.apart.this_]
      have hinside := hplace.enter hidle hsuits.apart.same (.receiver method) (.receiver method') hreceived
      exact List.rel_append (hmethod.sites hsuits hinside hidle (.method hmethod.isInitializer) hknown.1)
        (hrest.sitesAll hsuits hplace.next hidle hknown.2)

end

/-! ## Lists of twin sites -/

section

variable {sites sites' : List Occurrence}

/-- Twins of sites that break no rule break none. -/
theorem lawful_of_twins (h : List.Forall₂ (Occurrence.Twin pairing) sites sites')
    (hlawful : ∀ o ∈ sites, ∀ fault : ScopeFault, fault.arisesAt o = false) :
    ∀ o ∈ sites', ∀ fault : ScopeFault, fault.arisesAt o = false := by
  induction h with
  | nil => simp
  | @cons o o' rest rest' ho _ ih =>
      rintro other (_ | ⟨_, hother⟩) fault
      · rw [Bool.eq_false_iff]
        intro hfault
        have hgood := hlawful o List.mem_cons_self fault
        rw [ho.faults fault hfault] at hgood
        cases hgood
      · exact ih (fun o ho => hlawful o (List.mem_cons_of_mem _ ho)) other hother fault

/-- The uses among twin sites go together one by one. -/
theorem useNodes_twins (h : List.Forall₂ (Occurrence.Twin pairing) sites sites') :
    List.Forall₂ (fun id id' => ∃ distance, pairing.matched id id' distance) (useNodes sites)
      (useNodes sites') := by
  refine List.rel_filterMap (fun o o' ho => ?_) h
  by_cases huse : ∃ u, o.site = .use u
  · obtain ⟨u, hsite⟩ := huse
    obtain ⟨u', hsite', hmatched, -⟩ := ho.use u hsite
    rw [hsite, hsite']
    exact .some ⟨_, hmatched⟩
  · have hplain := ho.plain fun u hsite => huse ⟨u, hsite⟩
    cases hsite : o.site with
    | use u => exact (huse ⟨u, hsite⟩).elim
    | _ =>
        cases hsite' : o'.site with
        | use u => exact (hplain u hsite').elim
        | _ => exact .none

/-- Every use among sites goes together with one among their twins, and both are matched at one
distance. -/
theorem exists_use_of_twins (h : List.Forall₂ (Occurrence.Twin pairing) sites sites')
    {place : Place} {u : Use} (hmem : ⟨place, .use u⟩ ∈ sites) :
    ∃ place' u', ⟨place', .use u'⟩ ∈ sites' ∧
      pairing.matched u.node u'.node (place.matched? u) ∧
        place'.matched? u' = place.matched? u := by
  induction h with
  | nil => simp at hmem
  | @cons o o' rest rest' ho _ ih =>
      rcases List.mem_cons.mp hmem with rfl | hmem
      · obtain ⟨place', site'⟩ := o'
        obtain ⟨u', rfl, hmatched, hsame⟩ := ho.use u rfl
        exact ⟨place', u', List.mem_cons_self, hmatched, hsame⟩
      · obtain ⟨place', u', hmem', hmatched⟩ := ih hmem
        exact ⟨place', u', List.mem_cons_of_mem _ hmem', hmatched⟩

end

end Lox
