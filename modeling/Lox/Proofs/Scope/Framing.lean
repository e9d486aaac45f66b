import Lox.Proofs.Heap.Change
import Lox.Proofs.Scope.Sites
import Lox.Proofs.Syntax.Shape
import Lox.Proofs.Token.Spelling

/-!
# Scopes of `this` and `super`

The scopes around a place follow the classes around it: each method is in a scope of `this`, and
that directly in a scope of `super` if its class has a superclass. No other scope has these names.
-/

namespace Lox

open Scope (Frame Place Enclosing ScopeFault)

namespace Scope

/-! ## Frames -/

/-- The scope of a block or of a function, in which neither `this` nor `super` is declared. -/
structure Frame.Plain (frame : Frame) : Prop where
  region : Heap.Opens frame.region
  this_ : "this" ∉ frame.names
  super_ : "super" ∉ frame.names

/-- The scopes around a use follow the classes around it, which are known by their superclasses. The
use is in the methods of every class that has a superclass. -/
inductive Framed (u : Use) : List Frame → List (Option Expr) → Prop where
  | top : Framed u [] []
  | inside {frame : Frame} {scopes : List Frame} {classes : List (Option Expr)} :
      frame.Plain → Framed u scopes classes → Framed u (frame :: scopes) classes
  | base {frame : Frame} {method : FunctionDecl} {path : List Nat} {scopes : List Frame}
      {classes : List (Option Expr)} :
      frame.Plain → Framed u scopes classes →
        Framed u (frame :: ⟨.receiver method, path, ["this"]⟩ :: scopes) (none :: classes)
  | derived {frame : Frame} {method : FunctionDecl} {methods : List FunctionDecl}
      {path around : List Nat} {superclass : Expr} {scopes : List Frame}
      {classes : List (Option Expr)} :
      frame.Plain → u ∈ FunctionDecl.usesAll methods → Framed u scopes classes →
        Framed u (frame :: ⟨.receiver method, path, ["this"]⟩ ::
          ⟨.superclass methods, around, ["super"]⟩ :: scopes) (some superclass :: classes)

namespace Framed

variable {u : Use} {scopes : List Frame} {classes : List (Option Expr)}

/-- Names that are neither `this` nor `super` may be declared. -/
theorem declare (h : Framed u scopes classes) {names : List String} (hthis : "this" ∉ names)
    (hsuper : "super" ∉ names) : Framed u (Place.declareIn names scopes) classes := by
  have hplain : ∀ frame : Frame, frame.Plain → { frame with names := frame.names ++ names }.Plain :=
    fun frame hframe => ⟨hframe.region, by simp [hframe.this_, hthis], by simp [hframe.super_, hsuper]⟩
  cases h with
  | top => exact .top
  | inside hframe hscopes => exact .inside (hplain _ hframe) hscopes
  | base hframe hscopes => exact .base (hplain _ hframe) hscopes
  | derived hframe hmem hscopes => exact .derived (hplain _ hframe) hmem hscopes

/-- In a class with a superclass, the nearest scope of `super` is that of methods among which the
use is, and the nearest scope of `this` is directly inside it. -/
theorem nearest (h : Framed u scopes classes) {superclass : Expr}
    (hclass : classes.head? = some (some superclass)) :
    ∃ depth method methods receiver parent,
      scopes[depth]? = some receiver ∧ receiver.region = .receiver method ∧
        scopes[depth + 1]? = some parent ∧ parent.region = .superclass methods ∧
          u ∈ FunctionDecl.usesAll methods ∧
            (scopes.findIdx? fun frame => decide ("this" ∈ frame.names)) = some depth ∧
              (scopes.findIdx? fun frame => decide ("super" ∈ frame.names)) = some (depth + 1) := by
  induction h with
  | top => cases hclass
  | inside hframe _ ih =>
      obtain ⟨depth, method, methods, receiver, parent, hthis, hmethod, hsuper, hmethods, hmem,
        hfirst, hsecond⟩ := ih hclass
      refine ⟨depth + 1, method, methods, receiver, parent, hthis, hmethod, hsuper, hmethods, hmem, ?_, ?_⟩
      · simp [List.findIdx?_cons, hframe.this_, hfirst]
      · simp [List.findIdx?_cons, hframe.super_, hsecond]
  | base _ _ _ => cases hclass
  | @derived frame method methods path around _ _ _ hframe hmem _ _ =>
      refine ⟨1, method, methods, ⟨.receiver method, path, ["this"]⟩,
        ⟨.superclass methods, around, ["super"]⟩, rfl, rfl, rfl, rfl, hmem, ?_, ?_⟩
      · simp [List.findIdx?_cons, hframe.this_]
      · simp [List.findIdx?_cons, hframe.super_]

end Framed

end Scope

open Scope (Framed)

/-! ## Places of uses -/

/-- Every use of `super` among the occurrences is framed. -/
def SuperFramed (occurrences : List Occurrence) : Prop :=
  ∀ place u, ⟨place, .use u⟩ ∈ occurrences → u.kind = .super_ → Framed u place.scopes place.classes

theorem superFramed_append {xs ys : List Occurrence} (hx : SuperFramed xs) (hy : SuperFramed ys) :
    SuperFramed (xs ++ ys) := fun place u hmem hkind =>
  (List.mem_append.mp hmem).elim (fun h => hx place u h hkind) fun h => hy place u h hkind

theorem superFramed_cons {occurrence : Occurrence} {rest : List Occurrence}
    (hsite : ∀ u, occurrence.site ≠ .use u) (h : SuperFramed rest) :
    SuperFramed (occurrence :: rest) := by
  intro place u hmem hkind
  rcases List.mem_cons.mp hmem with heq | hmem
  · exact absurd (congrArg Occurrence.site heq).symm (hsite u)
  · exact h place u hmem hkind

theorem superFramed_uses {place : Place} {uses : List Use}
    (h : ∀ u ∈ uses, Framed u place.scopes place.classes) :
    SuperFramed (uses.map fun u => ⟨place, .use u⟩) := by
  intro inner u hmem _
  obtain ⟨found, hfound, heq⟩ := List.mem_map.mp hmem
  cases heq
  exact h u hfound

theorem superFramed_parameters (place : Place) (parameters : List Token) :
    SuperFramed (parameterSites place parameters) := by
  induction parameters generalizing place with
  | nil => exact fun _ _ hmem => by cases hmem
  | cons name rest ih => exact superFramed_cons (fun _ h => by cases h) (ih _)

/-- Names that are identifiers are neither `this` nor `super`. -/
theorem keyword_not_mem {names : List Token} (h : Token.NameAll Token.Spelled names)
    (keyword : Keyword) : keyword.spelling ∉ names.map Token.lexeme := by
  intro hmem
  obtain ⟨name, hname, heq⟩ := List.mem_map.mp hmem
  exact (h name hname).property.identifier (h name hname).category keyword heq

section

variable {u : Use} {place : Place}

/-- The statement declares identifiers only. -/
theorem Stmt.Formed.keyword_not_mem {s : Stmt} (h : s.Formed Token.Spelled) (keyword : Keyword) :
    keyword.spelling ∉ s.declares := by
  by_cases hplain : s.isDeclaration = false
  · rw [h.declares_eq_nil hplain]
    exact List.not_mem_nil
  · cases s with
    | var name initializer =>
        simpa [Stmt.declares, eq_comm] using h.1.property.identifier h.1.category keyword
    | function declaration =>
        obtain ⟨name, parameters, body⟩ := declaration
        simpa [Stmt.declares, eq_comm] using h.1.property.identifier h.1.category keyword
    | class_ name superclass methods =>
        simpa [Stmt.declares, eq_comm] using h.1.property.identifier h.1.category keyword
    | _ => exact absurd rfl hplain

theorem framed_declare {name : Token} (hname : name.Is Token.Spelled .identifier)
    (h : Framed u place.scopes place.classes) :
    Framed u (place.declare [name.lexeme]).scopes (place.declare [name.lexeme]).classes := by
  have hnot : ∀ keyword : Keyword, keyword.spelling ∉ [name.lexeme] := by
    intro keyword
    simpa [eq_comm] using hname.property.identifier hname.category keyword
  exact h.declare (hnot .this_) (hnot .super_)

theorem framed_initializerOf (name : String) (h : Framed u place.scopes place.classes) :
    Framed u (place.initializerOf name).scopes (place.initializerOf name).classes := by
  unfold Place.initializerOf
  split <;> exact h

/-- The scope of a function, with its parameters. -/
theorem plain_function (declaration : FunctionDecl) (path : List Nat) {parameters : List Token}
    (h : Token.NameAll Token.Spelled parameters) :
    (⟨.function declaration, path, [] ++ parameters.map Token.lexeme⟩ : Frame).Plain := by
  refine ⟨.function declaration, ?_, ?_⟩
  · rw [List.nil_append]
    exact keyword_not_mem h .this_
  · rw [List.nil_append]
    exact keyword_not_mem h .super_

/-- The scope of a method of a class, inside the one of `this`. -/
theorem framed_method {superclass : Option Expr} {methods : List FunctionDecl}
    (hmem : u ∈ FunctionDecl.usesAll methods) (h : Framed u place.scopes place.classes)
    {frame : Frame} (hframe : frame.Plain) (method : FunctionDecl) (path : List Nat) :
    let inside := (place.enterClass superclass).enterMethods superclass methods
    Framed u (frame :: ⟨.receiver method, path, ["this"]⟩ :: inside.scopes) inside.classes := by
  cases superclass with
  | none => exact .base hframe h
  | some e => exact .derived hframe hmem h

end

mutual

theorem Stmt.superFramed (place : Place) (s : Stmt) (hformed : s.Formed Token.Spelled)
    (hframed : ∀ u ∈ s.uses, Framed u place.scopes place.classes) :
    SuperFramed (s.sites place) := by
  cases s with
  | expression value => exact superFramed_uses hframed
  | print value => exact superFramed_uses hframed
  | var name initializer =>
      refine superFramed_cons (fun _ h => by cases h) (superFramed_uses fun u hu => ?_)
      exact framed_initializerOf _ (hframed u hu)
  | block body =>
      refine Stmt.superFramedAll _ body hformed fun u hu => ?_
      exact .inside ⟨.block body, by simp, by simp⟩ (hframed u hu)
  | function declaration =>
      obtain ⟨name, parameters, body⟩ := declaration
      obtain ⟨hname, hparameters, hbody⟩ := hformed
      refine superFramed_cons (fun _ h => by cases h) (superFramed_append
        (superFramed_parameters _ _) (Stmt.superFramedAll _ body hbody fun u hu => ?_))
      exact .inside (plain_function _ _ hparameters) (framed_declare hname (hframed u hu))
  | class_ name superclass methods =>
      obtain ⟨hname, hsuper, hmethods⟩ := hformed
      have houter : ∀ u ∈ FunctionDecl.usesAll methods,
          Framed u (place.declare [name.lexeme]).scopes place.classes := fun u hu =>
        framed_declare hname (hframed u (List.mem_append_right _ hu))
      refine superFramed_cons (fun _ h => by cases h)
        (superFramed_append (superFramed_append ?_ ?_) ?_)
      · intro _ u hmem _
        cases superclass with
        | none => cases hmem
        | some e => cases e <;> simp [inheritanceSites] at hmem
      · -- a superclass is given by its name, which is no use of `super`
        cases superclass with
        | none => exact fun _ _ hmem => by cases hmem
        | some e =>
            obtain ⟨id, superName, rfl, -⟩ := hsuper
            intro _ u hmem hkind
            simp only [Expr.sitesOpt, Expr.usesOpt, Expr.uses, List.map_cons, List.map_nil,
              List.mem_singleton, Occurrence.mk.injEq, Site.use.injEq] at hmem
            rw [hmem.2] at hkind
            cases hkind
      · exact FunctionDecl.superFramedAll _ methods hmethods fun u hu frame method path hframe =>
          framed_method hu (houter u hu) hframe method path
  | ifThen condition thenBranch =>
      obtain ⟨-, -, hthen⟩ := hformed
      exact superFramed_append
        (superFramed_uses fun u hu => hframed u (List.mem_append_left _ hu))
        (Stmt.superFramed _ thenBranch hthen fun u hu => hframed u (List.mem_append_right _ hu))
  | ifElse condition thenBranch elseBranch =>
      obtain ⟨-, ⟨-, hthen⟩, -, helse⟩ := hformed
      refine superFramed_append (superFramed_append
        (superFramed_uses fun u hu => hframed u ?_)
        (Stmt.superFramed _ thenBranch hthen fun u hu => hframed u ?_))
        (Stmt.superFramed _ elseBranch helse fun u hu => ?_)
      · exact List.mem_append_left _ (List.mem_append_left _ hu)
      · exact List.mem_append_left _ (List.mem_append_right _ hu)
      · exact (hframed u (List.mem_append_right _ hu)).declare (hthen.keyword_not_mem .this_)
          (hthen.keyword_not_mem .super_)
  | while_ condition body =>
      obtain ⟨-, -, hbody⟩ := hformed
      exact superFramed_append
        (superFramed_uses fun u hu => hframed u (List.mem_append_left _ hu))
        (Stmt.superFramed _ body hbody fun u hu => hframed u (List.mem_append_right _ hu))
  | return_ keyword value =>
      exact superFramed_cons (fun _ h => by cases h) (superFramed_uses hframed)

theorem Stmt.superFramedAll (place : Place) (statements : List Stmt)
    (hformed : Stmt.FormedAll Token.Spelled statements)
    (hframed : ∀ u ∈ Stmt.usesAll statements, Framed u place.scopes place.classes) :
    SuperFramed (Stmt.sitesAll place statements) := by
  cases statements with
  | nil => exact fun _ _ hmem => by cases hmem
  | cons s rest =>
      obtain ⟨hs, hrest⟩ := hformed
      refine superFramed_append (Stmt.superFramed place s hs fun u hu => ?_)
        (Stmt.superFramedAll _ rest hrest fun u hu => ?_)
      · exact hframed u (List.mem_append_left _ hu)
      · exact (hframed u (List.mem_append_right _ hu)).declare (hs.keyword_not_mem .this_)
          (hs.keyword_not_mem .super_)

theorem FunctionDecl.superFramedAll (place : Place) (methods : List FunctionDecl)
    (hformed : FunctionDecl.FormedAll Token.Spelled methods)
    (hframed : ∀ u ∈ FunctionDecl.usesAll methods, ∀ (frame : Frame) method path, frame.Plain →
      Framed u (frame :: ⟨.receiver method, path, ["this"]⟩ :: place.scopes) place.classes) :
    SuperFramed (FunctionDecl.sitesAll place methods) := by
  cases methods with
  | nil => exact fun _ _ hmem => by cases hmem
  | cons method rest =>
      obtain ⟨name, parameters, body⟩ := method
      obtain ⟨⟨-, hparameters, hbody⟩, hrest⟩ := hformed
      refine superFramed_append (superFramed_append (superFramed_parameters _ _)
        (Stmt.superFramedAll _ body hbody fun u hu => ?_))
        (FunctionDecl.superFramedAll place.next rest hrest fun u hu => ?_)
      · exact hframed u (List.mem_append_left _ hu) _ _ _ (plain_function _ _ hparameters)
      · exact hframed u (List.mem_append_right _ hu)

end

/-- In a program whose names are identifiers the scopes around a use of `super` follow the
classes. -/
theorem superFramed_program {program : List Stmt}
    (hformed : Stmt.FormedAll Token.Spelled program) : SuperFramed (programSites program) :=
  Stmt.superFramedAll .top program hformed fun _ _ => .top

/-- A use of `super` that breaks no rule is in a class with a superclass. -/
theorem classes_of_lawful {place : Place} {node : NodeId} {keyword : Token}
    (hlawful : ∀ fault : ScopeFault,
      fault.arisesAt ⟨place, .use ⟨.super_, keyword, node⟩⟩ = false) :
    ∃ superclass outer, place.classes = some superclass :: outer := by
  have houtside := hlawful .superOutsideClass
  have hbase := hlawful .superWithoutSuperclass
  simp only [ScopeFault.arisesAt, Place.inBaseClass] at houtside hbase
  cases hclasses : place.classes with
  | nil => simp [hclasses] at houtside
  | cons superclass rest =>
      cases superclass with
      | none => simp [hclasses] at hbase
      | some e => exact ⟨e, rest, rfl⟩

end Lox
