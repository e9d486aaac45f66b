import Lox.Proofs.Heap.Growth
import Lox.Proofs.Run.Contract
import Lox.Proofs.Scope.Sites
import Lox.Proofs.Syntax.Shape
import Lox.Proofs.Token.Spelling

/-!
# Scopes and environments

The environments from the current one outwards were made for the scopes around the place of the
text that is being run, one for one up to the globals, and bind every name that was declared there
so far. The same holds for every closure and its declaration. This is what a run preserves.
-/

namespace Lox

open Scope (Frame Place Enclosing)

/-! ## Environments made for scopes -/

/-- The environments from `id` outwards were made for the scopes, one for one up to the globals,
and each binds the names of its scope. -/
def Realises (heap : Heap) : List Frame → EnvironmentId → Prop
  | [], id => id = Heap.globals
  | frame :: outer, id =>
      (heap.environment id).region = some frame.region ∧
        (∀ name ∈ frame.names, (heap.binding? id name).isSome) ∧
          ∃ around, (heap.environment id).enclosing = some around ∧ Realises heap outer around

namespace Realises

variable {heap later : Heap} {frames : List Frame} {id : EnvironmentId}

theorem grows (h : Realises heap frames id) (hgrows : heap.Grows later) :
    Realises later frames id := by
  induction frames generalizing id with
  | nil => exact h
  | cons frame outer ih =>
      obtain ⟨hregion, hnames, around, haround, houter⟩ := h
      have hid := Heap.lt_size_of_enclosing haround
      refine ⟨by rw [hgrows.region id hid, hregion], ?_, around, ?_, ih houter⟩
      · intro name hname
        exact hgrows.bound id name (hnames name hname)
      · rw [hgrows.enclosing id hid, haround]

/-- Names that are bound may count as declared. -/
theorem declare (h : Realises heap frames id) {names : List String}
    (hnames : ∀ name ∈ names, (heap.binding? id name).isSome) :
    Realises heap (Place.declareIn names frames) id := by
  cases frames with
  | nil => exact h
  | cons frame outer =>
      obtain ⟨hregion, hold, houter⟩ := h
      refine ⟨hregion, ?_, houter⟩
      intro name hname
      rcases List.mem_append.mp hname with hname | hname
      · exact hold name hname
      · exact hnames name hname

/-- A new environment for a scope without names. -/
theorem child (h : Realises heap frames id) (region : Region) (path : List Nat) :
    Realises (heap.child id (some region)).2 (⟨region, path, []⟩ :: frames)
      (heap.child id (some region)).1 := by
  have hnew : (heap.child id (some region)).2.environment (heap.child id (some region)).1 =
      ⟨.empty, some id, some region⟩ := by
    rw [Heap.environment_child]
    exact if_pos rfl
  refine ⟨by rw [hnew], by simp, id, by rw [hnew], h.grows (Heap.Grows.child heap id _)⟩

/-- A new environment for a scope with a name of its own. -/
theorem childWith (h : Realises heap frames id) (region : Region) (path : List Nat) (name : String)
    (value : Value) :
    Realises
      ((heap.child id (some region)).2.define (heap.child id (some region)).1 name value)
      (⟨region, path, [name]⟩ :: frames) (heap.child id (some region)).1 := by
  have hinside : (heap.child id (some region)).1 <
      (heap.child id (some region)).2.environments.size := by
    rw [Heap.size_child]
    exact Nat.lt_succ_self _
  refine ((h.child region path).grows (Heap.Grows.define _ _ name value)).declare ?_
  intro other hother
  rw [List.mem_singleton] at hother
  rw [Heap.binding?_define _ _ _ _ _ _ hinside, if_pos ⟨rfl, hother.symm⟩]
  rfl

/-- The environment at the depth of a scope is the one that was made for it. -/
theorem walk (h : Realises heap frames id) {depth : Nat} {frame : Frame}
    (hframe : frames[depth]? = some frame) :
    ∃ target, heap.Walk depth id target ∧
      (heap.environment target).region = some frame.region ∧
        ∀ name ∈ frame.names, (heap.binding? target name).isSome := by
  induction frames generalizing id depth with
  | nil => cases hframe
  | cons first outer ih =>
      obtain ⟨hregion, hnames, around, haround, houter⟩ := h
      cases depth with
      | zero =>
          cases hframe
          exact ⟨id, rfl, hregion, hnames⟩
      | succ depth =>
          obtain ⟨target, hwalk, hrest⟩ := ih houter hframe
          exact ⟨target, ⟨around, haround, hwalk⟩, hrest⟩

end Realises

/-! ## Closures at their places -/

section

variable (known : List Occurrence)

/-- The closure's environment was made for the scopes around its declaration. -/
def Closure.Placed (heap : Heap) (closure : Closure) : Prop :=
  ∃ (place : Place) (form : FunctionDecl → Enclosing), place.initializing = none ∧
    Realises heap place.scopes closure.environment ∧
      closure.declaration.sites place form ⊆ known ∧
        Stmt.FormedAll Token.Spelled closure.declaration.body

/-- The closure is a method, and its environment was made for the scopes around its class, the one
of `super` included. -/
def Closure.Unbound (heap : Heap) (closure : Closure) : Prop :=
  ∃ place : Place, place.initializing = none ∧ Realises heap place.scopes closure.environment ∧
    closure.declaration.sites (place.enter (.receiver closure.declaration) ["this"]) .method ⊆
        known ∧
      Stmt.FormedAll Token.Spelled closure.declaration.body

/-- The globals are outermost, and all closures are at their places. -/
structure Heap.Congruent (heap : Heap) : Prop where
  nonempty : 0 < heap.environments.size
  outermost : (heap.environment Heap.globals).enclosing = none
  functions : ∀ id, (heap.closure id).Placed known heap
  methods : ∀ id name method, (heap.class_ id).methods.get? name = some method →
    method.Unbound known heap

end

variable {known : List Occurrence} {heap later : Heap}

theorem Closure.Placed.grows {closure : Closure} (h : closure.Placed known heap)
    (hgrows : heap.Grows later) : closure.Placed known later := by
  obtain ⟨place, form, hidle, hscopes, hrest⟩ := h
  exact ⟨place, form, hidle, hscopes.grows hgrows, hrest⟩

theorem Closure.Unbound.grows {closure : Closure} (h : closure.Unbound known heap)
    (hgrows : heap.Grows later) : closure.Unbound known later := by
  obtain ⟨place, hidle, hscopes, hrest⟩ := h
  exact ⟨place, hidle, hscopes.grows hgrows, hrest⟩

theorem Closure.placed_default (known : List Occurrence) (heap : Heap) :
    (default : Closure).Placed known heap :=
  ⟨.top, .function, rfl, rfl, List.nil_subset known, True.intro⟩

namespace Heap.Congruent

/-- Growth keeps closures where they are. -/
theorem of_grows (h : heap.Congruent known) (hgrows : heap.Grows later)
    (hfunctions : ∀ id, (later.closure id).Placed known later)
    (hmethods : ∀ id name method, (later.class_ id).methods.get? name = some method →
      method.Unbound known later) : later.Congruent known := by
  refine ⟨Nat.lt_of_lt_of_le h.nonempty hgrows.size, ?_, hfunctions, hmethods⟩
  rw [hgrows.enclosing Heap.globals h.nonempty, h.outermost]

/-- A change of the environments only. -/
theorem congr (h : heap.Congruent known) (hgrows : heap.Grows later)
    (hfunctions : later.functions = heap.functions) (hclasses : later.classes = heap.classes) :
    later.Congruent known := by
  refine h.of_grows hgrows ?_ ?_
  · intro id
    have := (h.functions id).grows hgrows
    rwa [Heap.closure, hfunctions]
  · intro id name method hmethod
    rw [Heap.class_, hclasses] at hmethod
    exact (h.methods id name method hmethod).grows hgrows

theorem define (h : heap.Congruent known) (id : EnvironmentId) (name : String) (value : Value) :
    (heap.define id name value).Congruent known :=
  h.congr (Heap.Grows.define heap id name value) rfl rfl

theorem child (h : heap.Congruent known) (enclosing : EnvironmentId) (region : Option Region) :
    (heap.child enclosing region).2.Congruent known :=
  h.congr (Heap.Grows.child heap enclosing region) rfl rfl

/-- More sites may be known. -/
theorem widen {wider : List Occurrence} (h : heap.Congruent known) (hsub : known ⊆ wider) :
    heap.Congruent wider := by
  refine ⟨h.nonempty, h.outermost, ?_, ?_⟩
  · intro id
    obtain ⟨place, form, hidle, hscopes, hsites, hformed⟩ := h.functions id
    exact ⟨place, form, hidle, hscopes, List.Subset.trans hsites hsub, hformed⟩
  · intro id name method hmethod
    obtain ⟨place, hidle, hscopes, hsites, hformed⟩ := h.methods id name method hmethod
    exact ⟨place, hidle, hscopes, List.Subset.trans hsites hsub, hformed⟩

/-- The first heap has no closures yet. -/
theorem fresh (known : List Occurrence) : Heap.fresh.Congruent known := by
  refine ⟨Nat.lt_succ_self 0, rfl, fun id => ?_, fun id name method hmethod => ?_⟩
  · exact Closure.placed_default known Heap.fresh
  · cases hmethod

theorem addFunction (h : heap.Congruent known) {closure : Closure}
    (hplaced : closure.Placed known heap) : (heap.addFunction closure).2.Congruent known := by
  have hgrows : heap.Grows (heap.addFunction closure).2 := Heap.Grows.of_environments rfl
  refine h.of_grows hgrows ?_ ?_
  · intro id
    by_cases hid : id = heap.functions.size
    · have hnew : (heap.addFunction closure).2.closure id = closure := by
        simp [Heap.addFunction, Heap.closure, hid]
      rw [hnew]
      exact hplaced.grows hgrows
    · have hold : (heap.addFunction closure).2.closure id = heap.closure id := by
        simp [Heap.addFunction, Heap.closure, Array.getElem?_push, hid]
      rw [hold]
      exact (h.functions id).grows hgrows
  · intro id name method hmethod
    exact (h.methods id name method hmethod).grows hgrows

theorem addClass (h : heap.Congruent known) {entry : Class}
    (hmethods : ∀ name method, entry.methods.get? name = some method →
      method.Unbound known heap) : (heap.addClass entry).2.Congruent known := by
  have hgrows : heap.Grows (heap.addClass entry).2 := Heap.Grows.of_environments rfl
  refine h.of_grows hgrows ?_ ?_
  · intro id
    exact (h.functions id).grows hgrows
  · intro id name method hmethod
    by_cases hid : id = heap.classes.size
    · have hnew : (heap.addClass entry).2.class_ id = entry := by
        simp [Heap.addClass, Heap.class_, hid]
      rw [hnew] at hmethod
      exact (hmethods name method hmethod).grows hgrows
    · have hold : (heap.addClass entry).2.class_ id = heap.class_ id := by
        simp [Heap.addClass, Heap.class_, Array.getElem?_push, hid]
      rw [hold] at hmethod
      exact (h.methods id name method hmethod).grows hgrows

theorem addInstance (h : heap.Congruent known) (id : ClassId) :
    (heap.addInstance id).2.Congruent known :=
  h.congr (Heap.Grows.of_environments rfl) rfl rfl

theorem setField (h : heap.Congruent known) (receiver : InstanceId) (name : String)
    (value : Value) : (heap.setField receiver name value).Congruent known :=
  h.congr (Heap.Grows.of_environments rfl) rfl rfl

/-- Every method that a class has, of its own or inherited, is at its place. -/
theorem findMethod? (h : heap.Congruent known) {id : ClassId} {name : String} {method : Closure}
    (hmethod : heap.findMethod? id name = some method) : method.Unbound known heap := by
  obtain ⟨place, _, hplace⟩ := List.exists_of_findSome?_eq_some hmethod
  exact h.methods place name method hplace

/-- A method that is bound to an instance is at its place. -/
theorem bindThis (h : heap.Congruent known) {method : Closure} (hmethod : method.Unbound known heap)
    (receiver : InstanceId) :
    heap.Grows (heap.bindThis method receiver).2 ∧
      (heap.bindThis method receiver).2.Congruent known ∧
        (heap.bindThis method receiver).1.Placed known (heap.bindThis method receiver).2 := by
  obtain ⟨place, hidle, hscopes, hsites, hformed⟩ := hmethod
  let region := Region.receiver method.declaration
  have hchild : heap.Grows (heap.child method.environment (some region)).2 :=
    Heap.Grows.child heap _ _
  refine ⟨hchild.trans (Heap.Grows.define _ _ _ _), (h.child _ _).define _ _ _,
    place.enter region ["this"], .method, hidle, ?_, hsites, hformed⟩
  exact hscopes.childWith region place.path "this" (.instance_ receiver)

/-- A bound method that becomes a value is at its place. -/
theorem boundMethod (h : heap.Congruent known) {method : Closure}
    (hmethod : method.Unbound known heap) (receiver : InstanceId) :
    heap.Grows (heap.boundMethod method receiver).2 ∧
      (heap.boundMethod method receiver).2.Congruent known := by
  obtain ⟨hgrows, hcongruent, hplaced⟩ := h.bindThis hmethod receiver
  refine ⟨hgrows.trans (Heap.Grows.of_environments rfl), ?_⟩
  exact hcongruent.addFunction hplaced

/-- What can be called as a function is at its place. -/
theorem callable? (h : heap.Congruent known) {value : Value} {closure : Closure}
    (hcallable : heap.callable? value = some (.closure closure)) : closure.Placed known heap := by
  cases value with
  | function id =>
      cases hcallable
      exact h.functions id
  | _ => cases hcallable

/-- What can be read as a method of an instance is at its place. -/
theorem property? (h : heap.Congruent known) {receiver : InstanceId} {name : String}
    {method : Closure} (hproperty : heap.property? receiver name = some (.method method)) :
    method.Unbound known heap := by
  rw [Heap.property?] at hproperty
  cases hfield : (heap.instance_ receiver).fields.get? name with
  | some value =>
      simp only [hfield] at hproperty
      cases hproperty
  | none =>
      simp only [hfield, Option.map_eq_some_iff] at hproperty
      obtain ⟨found, hfound, hsame⟩ := hproperty
      cases hsame
      exact h.findMethod? hfound

end Heap.Congruent

end Lox
