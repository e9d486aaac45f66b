import Lox.Proofs.Heap.Alike
import Lox.Proofs.Syntax.Twin

/-!
# Twin heaps

Two heaps are twins if they have the same places, with the same values under names that are changed
environment by environment, and if their functions are twins. What is looked up in the one is found
in the other.
-/

namespace Lox

/-- How the names of each environment are changed. -/
abbrev Renamers := EnvironmentId → Renamer

variable {pairings : Pairing → Prop} {renamers later : Renamers} {scopes : List Renamer}

namespace Heap

variable {heap heap' other : Heap}

/-! ## Renamers along a chain -/

/-- The environments from `id` outwards have the renamers of the scopes, one for one up to the
globals. -/
def Scoped (heap : Heap) (renamers : Renamers) : List Renamer → EnvironmentId → Prop
  | [], id => id = globals
  | renamer :: scopes, id => renamers id = renamer ∧
      ∃ outer, (heap.environment id).enclosing = some outer ∧ Scoped heap renamers scopes outer

/-- A heap grows while its environments keep their renamers. -/
structure Onward (heap : Heap) (renamers : Renamers) (heap' : Heap) (later : Renamers) : Prop where
  grows : heap.Grows heap'
  renamers : ∀ id < heap.environments.size, later id = renamers id

namespace Onward

theorem refl (heap : Heap) (renamers : Renamers) : heap.Onward renamers heap renamers :=
  ⟨.refl heap, fun _ _ => rfl⟩

theorem trans {last : Heap} {latest : Renamers} (first : heap.Onward renamers heap' later)
    (second : heap'.Onward later last latest) : heap.Onward renamers last latest :=
  ⟨first.grows.trans second.grows, fun id hid =>
    (second.renamers id (Nat.lt_of_lt_of_le hid first.grows.size)).trans (first.renamers id hid)⟩

theorem define (heap : Heap) (renamers : Renamers) (id : EnvironmentId) (name : String)
    (value : Value) : heap.Onward renamers (heap.define id name value) renamers :=
  ⟨.define heap id name value, fun _ _ => rfl⟩

theorem of_environments (h : heap'.environments = heap.environments) :
    heap.Onward renamers heap' renamers :=
  ⟨.of_environments h, fun _ _ => rfl⟩

/-- The renamers once an environment with a renamer of its own has been made. -/
theorem child (heap : Heap) (renamers : Renamers) (outer : EnvironmentId) (region : Option Region)
    (renamer : Renamer) :
    heap.Onward renamers (heap.child outer region).2
      (Function.update renamers heap.environments.size renamer) :=
  ⟨.child heap outer region, fun _ hid => Function.update_of_ne (Nat.ne_of_lt hid) _ _⟩

end Onward

theorem Scoped.onward {id : EnvironmentId} (h : heap.Scoped renamers scopes id)
    (honward : heap.Onward renamers heap' later) : heap'.Scoped later scopes id := by
  induction scopes generalizing id with
  | nil => exact h
  | cons renamer scopes ih =>
      obtain ⟨hrenamer, outer, houter, hrest⟩ := h
      have hid := lt_size_of_enclosing houter
      refine ⟨(honward.renamers id hid).trans hrenamer, outer, ?_, ih hrest⟩
      rw [honward.grows.enclosing id hid, houter]

/-- The chain from a new environment. -/
theorem Scoped.child {outer : EnvironmentId} (h : heap.Scoped renamers scopes outer)
    (region : Option Region) (renamer : Renamer) :
    (heap.child outer region).2.Scoped
      (Function.update renamers heap.environments.size renamer) (renamer :: scopes)
      (heap.child outer region).1 := by
  refine ⟨Function.update_self _ _ _, outer, ?_, h.onward (.child heap renamers outer region renamer)⟩
  rw [environment_child]
  exact congrArg Environment.enclosing (if_pos rfl)

/-- A distance leads to an environment with the renamer of the scope at that distance. -/
theorem Scoped.ancestor {id : EnvironmentId} (h : heap.Scoped renamers scopes id)
    (houtermost : (heap.environment globals).enclosing = none) (hglobals : renamers globals = .same)
    (distance : Nat) :
    renamers (heap.ancestor id distance) = .atDistance scopes (some distance) := by
  induction scopes generalizing id distance with
  | nil =>
      have hid : id = globals := h
      have hancestor : heap.ancestor globals distance = globals := by
        cases distance with
        | zero => rfl
        | succ distance => simp only [Heap.ancestor, houtermost]
      rw [hid, hancestor, hglobals]
      rfl
  | cons renamer scopes ih =>
      obtain ⟨hrenamer, outer, houter, hrest⟩ := h
      cases distance with
      | zero => exact hrenamer
      | succ distance =>
          simp only [Heap.ancestor, houter]
          exact ih hrest distance

theorem Scoped.innermost {id : EnvironmentId} (h : heap.Scoped renamers scopes id)
    (hglobals : renamers globals = .same) : renamers id = .innermost scopes := by
  cases scopes with
  | nil =>
      have hid : id = globals := h
      rw [hid, hglobals]
      rfl
  | cons renamer scopes => exact h.1

end Heap

/-! ## Functions and classes -/

section

variable (pairings : Pairing → Prop)

/-- Functions with one environment, of declarations that are twins inside the scopes of that
environment and in some scopes of their own. -/
structure Closure.Twin (own : List Renamer) (renamers : Renamers) (heap : Heap)
    (closure closure' : Closure) : Prop where
  environment : closure'.environment = closure.environment
  isInitializer : closure'.isInitializer = closure.isInitializer
  declared : ∃ pairing scopes, pairings pairing ∧
    closure.declaration.Twin pairing (own ++ scopes) closure'.declaration ∧
      heap.Scoped renamers scopes closure.environment

/-- A method, which is inside a scope of `this` once it is bound. -/
abbrev Closure.TwinMethod : Renamers → Heap → Closure → Closure → Prop :=
  Closure.Twin pairings [.same]

/-- Classes of one name and with one superclass, whose methods are twins. -/
structure Class.Twin (renamers : Renamers) (heap : Heap) (entry entry' : Class) : Prop where
  name : entry'.name = entry.name
  superclass : entry'.superclass = entry.superclass
  methods : ∀ name, Option.Rel (Closure.TwinMethod pairings renamers heap)
    (entry.methods.get? name) (entry'.methods.get? name)

/-- Heaps with the same places, of which the second one has the names of its environments
changed. -/
structure Heap.Twin (renamers : Renamers) (heap other : Heap) : Prop where
  size : other.environments.size = heap.environments.size
  enclosing : ∀ id, (other.environment id).enclosing = (heap.environment id).enclosing
  binding : ∀ id name, other.binding? id ((renamers id).rename name) = heap.binding? id name
  nonempty : 0 < heap.environments.size
  outermost : (heap.environment Heap.globals).enclosing = none
  globals : renamers Heap.globals = .same
  functionCount : other.functions.size = heap.functions.size
  function : ∀ id, (heap.closure id).Twin pairings [] renamers heap (other.closure id)
  classCount : other.classes.size = heap.classes.size
  class_ : ∀ id, (heap.class_ id).Twin pairings renamers heap (other.class_ id)
  instances : other.instances = heap.instances

end

section

variable {own : List Renamer} {heap heap' other other' : Heap}

theorem Closure.Twin.onward {closure closure' : Closure}
    (h : closure.Twin pairings own renamers heap closure')
    (honward : heap.Onward renamers heap' later) :
    closure.Twin pairings own later heap' closure' := by
  obtain ⟨henvironment, hinitializer, pairing, scopes, hpairing, htwin, hscoped⟩ := h
  exact ⟨henvironment, hinitializer, pairing, scopes, hpairing, htwin, hscoped.onward honward⟩

theorem Closure.Twin.arity {closure closure' : Closure}
    (h : closure.Twin pairings own renamers heap closure') : closure'.arity = closure.arity := by
  obtain ⟨-, -, pairing, scopes, -, htwin, -⟩ := h
  exact htwin.arity

theorem Class.Twin.alike {entry entry' : Class} (h : entry.Twin pairings renamers heap entry') :
    entry.Alike (Closure.TwinMethod pairings renamers heap) entry' :=
  ⟨h.name, h.superclass, h.methods⟩

/-! ## More pairings -/

section

variable {more : Pairing → Prop} (hmore : ∀ pairing, pairings pairing → more pairing)

include hmore

theorem Closure.Twin.mono {closure closure' : Closure}
    (h : closure.Twin pairings own renamers heap closure') :
    closure.Twin more own renamers heap closure' := by
  obtain ⟨henvironment, hinitializer, pairing, scopes, hpairing, htwin, hscoped⟩ := h
  exact ⟨henvironment, hinitializer, pairing, scopes, hmore pairing hpairing, htwin, hscoped⟩

theorem Class.Twin.mono {entry entry' : Class} (h : entry.Twin pairings renamers heap entry') :
    entry.Twin more renamers heap entry' :=
  ⟨h.name, h.superclass, fun name => rel_mono (h.methods name) fun _ _ htwin => htwin.mono hmore⟩

/-- Further pairings make no difference to heaps that are twins without them. -/
theorem Heap.Twin.mono (h : heap.Twin pairings renamers other) : heap.Twin more renamers other :=
  ⟨h.size, h.enclosing, h.binding, h.nonempty, h.outermost, h.globals, h.functionCount,
    fun id => (h.function id).mono hmore, h.classCount, fun id => (h.class_ id).mono hmore,
    h.instances⟩

end

/-! ## New heaps -/

section

variable {pairing : Pairing}

theorem FunctionDecl.twin_default (hrenamer : pairing.renamer .same)
    (htoken : pairing.token default default) (scopes : List Renamer) :
    (default : FunctionDecl).Twin pairing scopes default :=
  .mk hrenamer ⟨rfl, rfl, htoken⟩ .nil .nil

/-- Two new heaps are twins. -/
theorem Heap.twin_fresh (hpairing : pairings pairing) (hrenamer : pairing.renamer .same)
    (htoken : pairing.token default default) :
    Heap.fresh.Twin pairings (fun _ => .same) Heap.fresh := by
  have hclosure (id : FunctionId) : Heap.fresh.closure id = default := by
    simp [closure, fresh, define, root]
  have hclass (id : ClassId) : Heap.fresh.class_ id = default := by
    simp [Heap.class_, fresh, define, root]
  refine ⟨rfl, fun _ => rfl, fun _ _ => rfl, by decide, rfl, rfl, rfl, fun id => ?_, rfl, fun id => ?_,
    rfl⟩
  · rw [hclosure]
    exact ⟨rfl, rfl, pairing, [], hpairing, FunctionDecl.twin_default hrenamer htoken _, rfl⟩
  · rw [hclass]
    exact ⟨rfl, rfl, fun name => .none⟩

end

namespace Heap.Twin

/-! ## Changes of both heaps -/

/-- All but the environments of twin heaps is alike. -/
theorem alike (h : heap.Twin pairings renamers other) :
    heap.Alike (Closure.Twin pairings [] renamers heap) (Closure.TwinMethod pairings renamers heap)
      other :=
  ⟨h.functionCount, h.function, h.classCount, fun id => (h.class_ id).alike, h.instances⟩

/-- The heaps go on with other environments and with what is alike, and are twins still. -/
theorem onward (h : heap.Twin pairings renamers other)
    (honward : heap.Onward renamers heap' later)
    (hsize : other'.environments.size = heap'.environments.size)
    (henclosing : ∀ id, (other'.environment id).enclosing = (heap'.environment id).enclosing)
    (hbinding : ∀ id name, other'.binding? id ((later id).rename name) = heap'.binding? id name)
    (halike : heap'.Alike (Closure.Twin pairings [] renamers heap)
      (Closure.TwinMethod pairings renamers heap) other') : heap'.Twin pairings later other' where
  size := hsize
  enclosing := henclosing
  binding := hbinding
  nonempty := Nat.lt_of_lt_of_le h.nonempty honward.grows.size
  outermost := by rw [honward.grows.enclosing Heap.globals h.nonempty, h.outermost]
  globals := by rw [honward.renamers Heap.globals h.nonempty, h.globals]
  functionCount := halike.functionCount
  function id := (halike.function id).onward honward
  classCount := halike.classCount
  class_ id := ⟨(halike.class_ id).name, (halike.class_ id).superclass, fun name =>
    rel_mono ((halike.class_ id).methods name) fun _ _ hmethod => hmethod.onward honward⟩
  instances := halike.instances

/-- The heaps go on with other environments and nothing else. -/
theorem environments (h : heap.Twin pairings renamers other)
    (honward : heap.Onward renamers heap' later)
    (hsize : other'.environments.size = heap'.environments.size)
    (henclosing : ∀ id, (other'.environment id).enclosing = (heap'.environment id).enclosing)
    (hbinding : ∀ id name, other'.binding? id ((later id).rename name) = heap'.binding? id name)
    (hsame : heap'.functions = heap.functions ∧ heap'.classes = heap.classes ∧
      heap'.instances = heap.instances)
    (hsame' : other'.functions = other.functions ∧ other'.classes = other.classes ∧
      other'.instances = other.instances) : heap'.Twin pairings later other' :=
  h.onward honward hsize henclosing hbinding (h.alike.congr hsame hsame')

/-- A name is bound in both heaps, under its name in each. -/
theorem define (h : heap.Twin pairings renamers other) (id : EnvironmentId) (name : String)
    (value : Value) :
    (heap.define id name value).Twin pairings renamers
      (other.define id ((renamers id).rename name) value) := by
  refine h.environments (.define heap renamers id name value) ?_ (fun place => ?_)
    (fun place found => ?_) ⟨rfl, rfl, rfl⟩ ⟨rfl, rfl, rfl⟩
  · rw [size_define, size_define, h.size]
  · rw [enclosing_define, enclosing_define, h.enclosing]
  · by_cases hinside : id < heap.environments.size
    · have hinside' : id < other.environments.size := by rwa [h.size]
      rw [binding?_define _ _ _ _ _ _ hinside, binding?_define _ _ _ _ _ _ hinside']
      by_cases hplace : id = place
      · subst hplace
        simp only [(renamers id).injective.eq_iff, h.binding]
      · simp only [hplace, false_and, if_false, h.binding]
    · have houtside := Nat.le_of_not_lt hinside
      have houtside' : other.environments.size ≤ id := by rwa [h.size]
      rw [binding?, binding?, environment_define_of_size_le houtside,
        environment_define_of_size_le houtside']
      exact h.binding place found

/-- An environment is made in both heaps. -/
theorem child (h : heap.Twin pairings renamers other) (outer : EnvironmentId)
    (region region' : Option Region) (renamer : Renamer) :
    (heap.child outer region).2.Twin pairings
      (Function.update renamers heap.environments.size renamer)
      (other.child outer region').2 := by
  refine h.environments (.child heap renamers outer region renamer) ?_ (fun id => ?_)
    (fun id name => ?_) ⟨rfl, rfl, rfl⟩ ⟨rfl, rfl, rfl⟩
  · rw [size_child, size_child, h.size]
  · rw [environment_child, environment_child, h.size]
    split
    · rfl
    · exact h.enclosing id
  · rw [binding?, binding?, environment_child, environment_child, h.size]
    split
    · rfl
    · next hne =>
        rw [Function.update_of_ne hne]
        exact h.binding id name

/-- The new environment has the same place in both. -/
theorem child_eq (h : heap.Twin pairings renamers other) (outer : EnvironmentId)
    (region region' : Option Region) : (other.child outer region').1 = (heap.child outer region).1 :=
  h.size

theorem addFunction (h : heap.Twin pairings renamers other) {closure closure' : Closure}
    (hclosure : closure.Twin pairings [] renamers heap closure') :
    (heap.addFunction closure).2.Twin pairings renamers (other.addFunction closure').2 :=
  h.onward (.of_environments rfl) h.size h.enclosing h.binding (h.alike.addFunction hclosure)

theorem addFunction_eq (h : heap.Twin pairings renamers other) (closure closure' : Closure) :
    (other.addFunction closure').1 = (heap.addFunction closure).1 :=
  h.functionCount

theorem addClass (h : heap.Twin pairings renamers other) {entry entry' : Class}
    (hentry : entry.Twin pairings renamers heap entry') :
    (heap.addClass entry).2.Twin pairings renamers (other.addClass entry').2 :=
  h.onward (.of_environments rfl) h.size h.enclosing h.binding (h.alike.addClass hentry.alike)

theorem addClass_eq (h : heap.Twin pairings renamers other) (entry entry' : Class) :
    (other.addClass entry').1 = (heap.addClass entry).1 :=
  h.classCount

theorem addInstance (h : heap.Twin pairings renamers other) (id : ClassId) :
    (heap.addInstance id).2.Twin pairings renamers (other.addInstance id).2 :=
  h.onward (.of_environments rfl) h.size h.enclosing h.binding (h.alike.addInstance id)

theorem addInstance_eq (h : heap.Twin pairings renamers other) (id : ClassId) :
    (other.addInstance id).1 = (heap.addInstance id).1 :=
  congrArg Array.size h.instances

theorem setField (h : heap.Twin pairings renamers other) (receiver : InstanceId) (name : String)
    (value : Value) :
    (heap.setField receiver name value).Twin pairings renamers
      (other.setField receiver name value) :=
  h.onward (.of_environments rfl) h.size h.enclosing h.binding
    (h.alike.setField receiver name value)

/-- A method is bound to an instance in both heaps. -/
theorem bindThis (h : heap.Twin pairings renamers other) {method method' : Closure}
    (hmethod : method.TwinMethod pairings renamers heap method') (receiver : InstanceId) :
    ∃ later, heap.Onward renamers (heap.bindThis method receiver).2 later ∧
      (heap.bindThis method receiver).2.Twin pairings later (other.bindThis method' receiver).2 ∧
        (heap.bindThis method receiver).1.Twin pairings [] later
          (heap.bindThis method receiver).2 (other.bindThis method' receiver).1 := by
  obtain ⟨henvironment, hinitializer, pairing, scopes, hpairing, htwin, hscoped⟩ := hmethod
  let region := some (Region.receiver method.declaration)
  have hentered := Onward.child heap renamers method.environment region .same
  have hdefined := Onward.define (heap.child method.environment region).2
    (Function.update renamers heap.environments.size .same) heap.environments.size "this"
    (.instance_ receiver)
  have hbound := (h.child method.environment region (some (.receiver method'.declaration)) .same).define
    heap.environments.size "this" (.instance_ receiver)
  rw [Function.update_self, Renamer.rename_same] at hbound
  refine ⟨_, hentered.trans hdefined, ?_, ?_⟩
  · simp only [Heap.bindThis, henvironment, h.child_eq method.environment region]
    exact hbound
  · exact ⟨h.size, hinitializer, pairing, .same :: scopes, hpairing, htwin,
      (hscoped.child region .same).onward hdefined⟩

/-- A bound method becomes a value in both heaps. -/
theorem boundMethod (h : heap.Twin pairings renamers other) {method method' : Closure}
    (hmethod : method.TwinMethod pairings renamers heap method') (receiver : InstanceId) :
    ∃ later, heap.Onward renamers (heap.boundMethod method receiver).2 later ∧
      (heap.boundMethod method receiver).2.Twin pairings later
        (other.boundMethod method' receiver).2 ∧
      (other.boundMethod method' receiver).1 = (heap.boundMethod method receiver).1 := by
  obtain ⟨later, honward, hbound, hclosure⟩ := h.bindThis hmethod receiver
  exact ⟨later, honward.trans (.of_environments rfl), hbound.addFunction hclosure,
    congrArg Value.function hbound.functionCount⟩

/-! ## Lookups in both heaps -/

/-- The innermost environment is on the heap. -/
theorem lt_size (h : heap.Twin pairings renamers other) {id : EnvironmentId}
    (hscoped : heap.Scoped renamers scopes id) : id < heap.environments.size := by
  cases scopes with
  | nil =>
      have hid : id = Heap.globals := hscoped
      rw [hid]
      exact h.nonempty
  | cons renamer scopes =>
      obtain ⟨-, outer, houter, -⟩ := hscoped
      exact lt_size_of_enclosing houter

theorem ancestor (h : heap.Twin pairings renamers other) (id : EnvironmentId) (distance : Nat) :
    other.ancestor id distance = heap.ancestor id distance := by
  induction distance generalizing id with
  | zero => rfl
  | succ distance ih =>
      simp only [Heap.ancestor, h.enclosing]
      cases (heap.environment id).enclosing with
      | none => rfl
      | some outer => exact ih outer

/-- A name is found at a distance under its name in the scope at that distance. -/
theorem getAt? (h : heap.Twin pairings renamers other) {id : EnvironmentId}
    (hscoped : heap.Scoped renamers scopes id) (distance : Nat) (name : String) :
    other.getAt? id distance ((Renamer.atDistance scopes (some distance)).rename name) =
      heap.getAt? id distance name := by
  rw [Heap.getAt?, Heap.getAt?, h.ancestor, ← hscoped.ancestor h.outermost h.globals, h.binding]

/-- `this` and `super` are found under their own names. -/
theorem getAt?_keyword (h : heap.Twin pairings renamers other) (id : EnvironmentId)
    (distance : Nat) {name : String} (hname : name = "this" ∨ name = "super") :
    other.getAt? id distance name = heap.getAt? id distance name := by
  have hbinding := h.binding (heap.ancestor id distance) name
  have hfixed : (renamers (heap.ancestor id distance)).rename name = name := by
    rcases hname with rfl | rfl
    · exact Renamer.this_ _
    · exact Renamer.super_ _
  rw [Heap.getAt?, Heap.getAt?, h.ancestor]
  rwa [hfixed] at hbinding

/-- The global names are the same. -/
theorem binding?_globals (h : heap.Twin pairings renamers other) (name : String) :
    other.binding? Heap.globals name = heap.binding? Heap.globals name := by
  have hbinding := h.binding Heap.globals name
  rwa [h.globals] at hbinding

theorem findMethod? (h : heap.Twin pairings renamers other) (id : ClassId) (name : String) :
    Option.Rel (Closure.TwinMethod pairings renamers heap) (heap.findMethod? id name)
      (other.findMethod? id name) :=
  h.alike.findMethod? id name

/-- Properties that are equal fields or methods that are twins. -/
inductive Property (pairings : Pairing → Prop) (renamers : Renamers) (heap : Heap) :
    Heap.Property → Heap.Property → Prop where
  | field (value : Value) : Property pairings renamers heap (.field value) (.field value)
  | method {method method' : Closure} : method.TwinMethod pairings renamers heap method' →
      Property pairings renamers heap (.method method) (.method method')

theorem property? (h : heap.Twin pairings renamers other) (receiver : InstanceId) (name : String) :
    Option.Rel (Property pairings renamers heap) (heap.property? receiver name)
      (other.property? receiver name) :=
  h.alike.property? .field .method receiver name

/-- Things that can be called alike. -/
inductive Callable (pairings : Pairing → Prop) (renamers : Renamers) (heap : Heap) :
    Heap.Callable → Heap.Callable → Prop where
  | native (native : Native) : Callable pairings renamers heap (.native native) (.native native)
  | closure {closure closure' : Closure} : closure.Twin pairings [] renamers heap closure' →
      Callable pairings renamers heap (.closure closure) (.closure closure')
  | class_ (id : ClassId) : Callable pairings renamers heap (.class_ id) (.class_ id)

theorem callable? (h : heap.Twin pairings renamers other) (value : Value) :
    Option.Rel (Callable pairings renamers heap) (heap.callable? value) (other.callable? value) :=
  h.alike.callable? .native .closure .class_ value

theorem arity (h : heap.Twin pairings renamers other) {callable callable' : Heap.Callable}
    (hcallable : Callable pairings renamers heap callable callable') :
    other.arity callable' = heap.arity callable := by
  cases hcallable with
  | native native => rfl
  | closure htwin => exact htwin.arity
  | class_ id => exact h.alike.arity_class (fun _ _ hmethod => hmethod.arity) id

/-- A value has one text in both heaps. -/
theorem text (h : heap.Twin pairings renamers other) (value : Value) :
    other.text value = heap.text value := by
  refine h.alike.text (fun closure closure' hclosure => ?_) value
  obtain ⟨-, -, pairing, scopes, -, htwin, -⟩ := hclosure
  exact htwin.name.lexeme

end Heap.Twin

end

end Lox
