import Lox.Proofs.Heap.Alike
import Lox.Proofs.Syntax.Boxed
import Mathlib.Logic.Function.Basic

/-!
# Heaps with environments of extra blocks

The second of two heaps has the environments of the first one, in other places, and those of extra
blocks. Its functions and methods are those of the first heap with extra blocks in their bodies.
What is looked up in the one is found in the other, further out by the extra environments in
between.
-/

namespace Lox

/-- Where each environment of the first heap is in the second one. -/
abbrev Places := EnvironmentId → EnvironmentId

variable {demands : Demands} {places later : Places} {layers : Layers}

namespace Heap

variable {heap heap' other other' : Heap}

/-! ## Chains with extra environments -/

/-- From `id` outwards in the first heap and from `id'` outwards in the second one, up to the
globals, the environments are those of the layers. -/
def Around (heap other : Heap) (places : Places) : Layers → EnvironmentId → EnvironmentId → Prop
  | [], id, id' => id = globals ∧ id' = globals
  | .both :: layers, id, id' => id' = places id ∧
      ∃ outer outer', (heap.environment id).enclosing = some outer ∧
        (other.environment id').enclosing = some outer' ∧
          Around heap other places layers outer outer'
  | .extra :: layers, id, id' =>
      ∃ outer', (other.environment id').enclosing = some outer' ∧
        Around heap other places layers id outer'

/-- Both heaps grow while the environments of the first one keep their places in the second. -/
structure Onwards (heap other : Heap) (places : Places) (heap' other' : Heap) (later : Places) :
    Prop where
  grows : heap.Grows heap'
  grows' : other.Grows other'
  places : ∀ id < heap.environments.size, later id = places id

namespace Onwards

theorem refl (heap other : Heap) (places : Places) : heap.Onwards other places heap other places :=
  ⟨.refl heap, .refl other, fun _ _ => rfl⟩

theorem trans {last last' : Heap} {latest : Places}
    (first : heap.Onwards other places heap' other' later)
    (second : heap'.Onwards other' later last last' latest) :
    heap.Onwards other places last last' latest :=
  ⟨first.grows.trans second.grows, first.grows'.trans second.grows', fun id hid =>
    (second.places id (Nat.lt_of_lt_of_le hid first.grows.size)).trans (first.places id hid)⟩

/-- Only environments count. -/
theorem of_environments (h : heap'.environments = heap.environments)
    (h' : other'.environments = other.environments) :
    heap.Onwards other places heap' other' places :=
  ⟨.of_environments h, .of_environments h', fun _ _ => rfl⟩

theorem define (heap other : Heap) (places : Places) (id id' : EnvironmentId) (name : String)
    (value : Value) :
    heap.Onwards other places (heap.define id name value) (other.define id' name value) places :=
  ⟨.define heap id name value, .define other id' name value, fun _ _ => rfl⟩

/-- An environment is made in both heaps. -/
theorem child (heap other : Heap) (places : Places) (outer outer' : EnvironmentId)
    (region region' : Option Region) :
    heap.Onwards other places (heap.child outer region).2 (other.child outer' region').2
      (Function.update places heap.environments.size other.environments.size) :=
  ⟨.child heap outer region, .child other outer' region',
    fun _ hid => Function.update_of_ne (Nat.ne_of_lt hid) _ _⟩

/-- An environment is made in the second heap only. -/
theorem childExtra (heap other : Heap) (places : Places) (outer' : EnvironmentId)
    (region' : Option Region) :
    heap.Onwards other places heap (other.child outer' region').2 places :=
  ⟨.refl heap, .child other outer' region', fun _ _ => rfl⟩

end Onwards

namespace Around

variable {id id' : EnvironmentId}

theorem onwards (h : heap.Around other places layers id id')
    (honwards : heap.Onwards other places heap' other' later) :
    heap'.Around other' later layers id id' := by
  induction layers generalizing id id' with
  | nil => exact h
  | cons layer layers ih =>
      cases layer with
      | both =>
          obtain ⟨hplace, outer, outer', houter, houter', hrest⟩ := h
          have hid := lt_size_of_enclosing houter
          refine ⟨hplace.trans (honwards.places id hid).symm, outer, outer', ?_, ?_, ih hrest⟩
          · rw [honwards.grows.enclosing id hid, houter]
          · rw [honwards.grows'.enclosing id' (lt_size_of_enclosing houter'), houter']
      | extra =>
          obtain ⟨outer', houter', hrest⟩ := h
          refine ⟨outer', ?_, ih hrest⟩
          rw [honwards.grows'.enclosing id' (lt_size_of_enclosing houter'), houter']

/-- The chains from environments that are made in both heaps. -/
theorem child (h : heap.Around other places layers id id') (region region' : Option Region) :
    (heap.child id region).2.Around (other.child id' region').2
      (Function.update places heap.environments.size other.environments.size) (.both :: layers)
      (heap.child id region).1 (other.child id' region').1 := by
  have hplace : Function.update places heap.environments.size other.environments.size
      heap.environments.size = other.environments.size := Function.update_self _ _ _
  refine ⟨hplace.symm, id, id', ?_, ?_, h.onwards (.child heap other places id id' region region')⟩
  · rw [environment_child]
    exact congrArg Environment.enclosing (if_pos rfl)
  · rw [environment_child]
    exact congrArg Environment.enclosing (if_pos rfl)

/-- The chain from an environment that is made in the second heap only. -/
theorem childExtra (h : heap.Around other places layers id id') (region' : Option Region) :
    heap.Around (other.child id' region').2 places (.extra :: layers) id
      (other.child id' region').1 := by
  refine ⟨id', ?_, h.onwards (.childExtra heap other places id' region')⟩
  rw [environment_child]
  exact congrArg Environment.enclosing (if_pos rfl)

/-- The innermost environment of the first heap is on it. -/
theorem lt_size (h : heap.Around other places layers id id')
    (hnonempty : 0 < heap.environments.size) : id < heap.environments.size := by
  induction layers generalizing id id' with
  | nil =>
      obtain ⟨rfl, -⟩ := h
      exact hnonempty
  | cons layer layers ih =>
      cases layer with
      | both =>
          obtain ⟨-, outer, outer', houter, -, -⟩ := h
          exact lt_size_of_enclosing houter
      | extra =>
          obtain ⟨outer', -, hrest⟩ := h
          exact ih hrest

/-- The innermost environment of both heaps, unless it is an extra one. -/
theorem place_eq (h : heap.Around other places layers id id') (hshared : layers.Shared)
    (hglobals : places globals = globals) : id' = places id := by
  match layers with
  | [] =>
      obtain ⟨rfl, rfl⟩ := h
      exact hglobals.symm
  | .both :: _ => exact h.1
  | .extra :: _ => exact absurd rfl hshared

/-- A distance leads to an environment that is where the widened distance leads to. -/
theorem ancestor (h : heap.Around other places layers id id')
    (hglobals : places globals = globals)
    (houtermost : (heap.environment globals).enclosing = none)
    (houtermost' : (other.environment globals).enclosing = none) (distance : Nat) :
    other.ancestor id' (layers.widen distance) = places (heap.ancestor id distance) := by
  induction layers generalizing id id' distance with
  | nil =>
      obtain ⟨rfl, rfl⟩ := h
      -- a distance past the outermost environment stays there in both heaps
      have hstay : ∀ {heap : Heap}, (heap.environment globals).enclosing = none →
          heap.ancestor globals distance = globals := by
        intro heap houtermost
        cases distance with
        | zero => rfl
        | succ distance => simp only [Heap.ancestor, houtermost]
      rw [Layers.widen, hstay houtermost, hstay houtermost', hglobals]
  | cons layer layers ih =>
      cases layer with
      | both =>
          obtain ⟨hplace, outer, outer', houter, houter', hrest⟩ := h
          cases distance with
          | zero => exact hplace
          | succ distance =>
              simp only [Layers.widen, Heap.ancestor, houter, houter']
              exact ih hrest distance
      | extra =>
          obtain ⟨outer', houter', hrest⟩ := h
          simp only [Layers.widen, Heap.ancestor, houter']
          exact ih hrest distance

/-- A distance leads to an environment on the heap. -/
theorem ancestor_lt_size (h : heap.Around other places layers id id')
    (hnonempty : 0 < heap.environments.size)
    (houtermost : (heap.environment globals).enclosing = none) (distance : Nat) :
    heap.ancestor id distance < heap.environments.size := by
  induction layers generalizing id id' distance with
  | nil =>
      obtain ⟨rfl, -⟩ := h
      cases distance with
      | zero => exact hnonempty
      | succ distance =>
          simp only [Heap.ancestor, houtermost]
          exact hnonempty
  | cons layer layers ih =>
      cases layer with
      | both =>
          obtain ⟨-, outer, outer', houter, -, hrest⟩ := h
          cases distance with
          | zero => exact lt_size_of_enclosing houter
          | succ distance =>
              simp only [Heap.ancestor, houter]
              exact ih hrest distance
      | extra =>
          obtain ⟨outer', -, hrest⟩ := h
          exact ih hrest distance

end Around

end Heap

/-! ## Functions and classes -/

section

variable (demands)

/-- Functions of which the second one has extra blocks in its body, in environments of the same
scopes, some scopes of their own left aside. -/
structure Closure.Boxed (own : Layers) (places : Places) (heap other : Heap)
    (closure closure' : Closure) : Prop where
  isInitializer : closure'.isInitializer = closure.isInitializer
  declared : ∃ layers, Layers.Shared (own ++ layers) ∧
    FunctionDecl.Boxed demands (own ++ layers) closure.declaration closure'.declaration ∧
      heap.Around other places layers closure.environment closure'.environment

/-- A method, which is inside a scope of `this` once it is bound. -/
abbrev Closure.BoxedMethod : Places → Heap → Heap → Closure → Closure → Prop :=
  Closure.Boxed demands [.both]

/-- Classes of one name and with one superclass, whose methods have extra blocks. -/
structure Class.Boxed (places : Places) (heap other : Heap) (entry entry' : Class) : Prop where
  name : entry'.name = entry.name
  superclass : entry'.superclass = entry.superclass
  methods : ∀ name, Option.Rel (Closure.BoxedMethod demands places heap other)
    (entry.methods.get? name) (entry'.methods.get? name)

/-- The second heap has what the first one has, and environments of extra blocks. -/
structure Heap.Boxed (places : Places) (heap other : Heap) : Prop where
  nonempty : 0 < heap.environments.size
  inside : ∀ id < heap.environments.size, places id < other.environments.size
  apart : ∀ id < heap.environments.size, ∀ id' < heap.environments.size,
    places id = places id' → id = id'
  binding : ∀ id < heap.environments.size, ∀ name,
    other.binding? (places id) name = heap.binding? id name
  globals : places Heap.globals = Heap.globals
  outermost : (heap.environment Heap.globals).enclosing = none
  outermost' : (other.environment Heap.globals).enclosing = none
  functionCount : other.functions.size = heap.functions.size
  function : ∀ id, (heap.closure id).Boxed demands [] places heap other (other.closure id)
  classCount : other.classes.size = heap.classes.size
  class_ : ∀ id, (heap.class_ id).Boxed demands places heap other (other.class_ id)
  instances : other.instances = heap.instances

end

section

variable {own : Layers} {heap heap' other other' : Heap}

theorem Closure.Boxed.onwards {closure closure' : Closure}
    (h : closure.Boxed demands own places heap other closure')
    (honwards : heap.Onwards other places heap' other' later) :
    closure.Boxed demands own later heap' other' closure' := by
  obtain ⟨hinitializer, layers, hshared, hdeclared, haround⟩ := h
  exact ⟨hinitializer, layers, hshared, hdeclared, haround.onwards honwards⟩

theorem Closure.Boxed.arity {closure closure' : Closure}
    (h : closure.Boxed demands own places heap other closure') :
    closure'.arity = closure.arity := by
  obtain ⟨-, layers, -, hdeclared, -⟩ := h
  rw [Closure.arity, Closure.arity, hdeclared.parameters]

theorem Class.Boxed.alike {entry entry' : Class}
    (h : entry.Boxed demands places heap other entry') :
    entry.Alike (Closure.BoxedMethod demands places heap other) entry' :=
  ⟨h.name, h.superclass, h.methods⟩

/-- Two new heaps have no extra environments. -/
theorem Heap.boxed_fresh (demands : Demands) : Heap.fresh.Boxed demands id Heap.fresh := by
  have hclosure (id : FunctionId) : Heap.fresh.closure id = default := by
    simp [closure, fresh, define, root]
  have hclass (id : ClassId) : Heap.fresh.class_ id = default := by
    simp [Heap.class_, fresh, define, root]
  refine ⟨by decide, fun _ hid => hid, fun _ _ _ _ hsame => hsame, fun _ _ _ => rfl, rfl, rfl, rfl,
    rfl, fun id => ?_, rfl, fun id => ?_, rfl⟩
  · rw [hclosure]
    exact ⟨rfl, [], Layers.shared_nil, .mk _ _ .nil, rfl, rfl⟩
  · rw [hclass]
    exact ⟨rfl, rfl, fun _ => .none⟩

namespace Heap.Boxed

/-! ## Changes of both heaps -/

/-- All but the environments of both heaps is alike. -/
theorem alike (h : heap.Boxed demands places other) :
    heap.Alike (Closure.Boxed demands [] places heap other)
      (Closure.BoxedMethod demands places heap other) other :=
  ⟨h.functionCount, h.function, h.classCount, fun id => (h.class_ id).alike, h.instances⟩

/-- The heaps go on with other environments and with what is alike. -/
theorem onwards (h : heap.Boxed demands places other)
    (honwards : heap.Onwards other places heap' other' later)
    (hinside : ∀ id < heap'.environments.size, later id < other'.environments.size)
    (hapart : ∀ id < heap'.environments.size, ∀ id' < heap'.environments.size,
      later id = later id' → id = id')
    (hbinding : ∀ id < heap'.environments.size, ∀ name,
      other'.binding? (later id) name = heap'.binding? id name)
    (halike : heap'.Alike (Closure.Boxed demands [] places heap other)
      (Closure.BoxedMethod demands places heap other) other') :
    heap'.Boxed demands later other' := by
  have hglobals : Heap.globals < other.environments.size := by
    have hlt := h.inside Heap.globals h.nonempty
    rwa [h.globals] at hlt
  refine ⟨Nat.lt_of_lt_of_le h.nonempty honwards.grows.size, hinside, hapart, hbinding, ?_, ?_, ?_,
    halike.functionCount, fun id => (halike.function id).onwards honwards, halike.classCount,
    fun id => ⟨(halike.class_ id).name, (halike.class_ id).superclass, fun name => ?_⟩,
    halike.instances⟩
  · rw [honwards.places Heap.globals h.nonempty, h.globals]
  · rw [honwards.grows.enclosing Heap.globals h.nonempty, h.outermost]
  · rw [honwards.grows'.enclosing Heap.globals hglobals, h.outermost']
  · exact rel_mono ((halike.class_ id).methods name) fun _ _ hmethod => hmethod.onwards honwards

/-- The heaps go on with other environments and nothing else. -/
theorem environments (h : heap.Boxed demands places other)
    (honwards : heap.Onwards other places heap' other' later)
    (hinside : ∀ id < heap'.environments.size, later id < other'.environments.size)
    (hapart : ∀ id < heap'.environments.size, ∀ id' < heap'.environments.size,
      later id = later id' → id = id')
    (hbinding : ∀ id < heap'.environments.size, ∀ name,
      other'.binding? (later id) name = heap'.binding? id name)
    (hsame : heap'.functions = heap.functions ∧ heap'.classes = heap.classes ∧
      heap'.instances = heap.instances)
    (hsame' : other'.functions = other.functions ∧ other'.classes = other.classes ∧
      other'.instances = other.instances) : heap'.Boxed demands later other' :=
  h.onwards honwards hinside hapart hbinding (h.alike.congr hsame hsame')

/-- A name is bound in both heaps. -/
theorem define (h : heap.Boxed demands places other) {id : EnvironmentId}
    (hid : id < heap.environments.size) (name : String) (value : Value) :
    (heap.define id name value).Boxed demands places (other.define (places id) name value) := by
  refine h.environments (.define heap other places id (places id) name value) ?_ ?_
    (fun place hplace found => ?_) ⟨rfl, rfl, rfl⟩ ⟨rfl, rfl, rfl⟩
  · simpa only [size_define] using h.inside
  · simpa only [size_define] using h.apart
  · rw [size_define] at hplace
    rw [binding?_define _ _ _ _ _ _ hid, binding?_define _ _ _ _ _ _ (h.inside id hid),
      h.binding place hplace]
    by_cases hsame : id = place
    · simp only [hsame, true_and]
    · have hapart : places id ≠ places place := fun heq => hsame (h.apart id hid place hplace heq)
      simp only [hsame, hapart, false_and, if_false]

/-- An environment is made in both heaps. -/
theorem child (h : heap.Boxed demands places other) (outer outer' : EnvironmentId)
    (region region' : Option Region) :
    (heap.child outer region).2.Boxed demands
      (Function.update places heap.environments.size other.environments.size)
      (other.child outer' region').2 := by
  have hold : ∀ id < heap.environments.size, places id ≠ other.environments.size :=
    fun id hid => Nat.ne_of_lt (h.inside id hid)
  refine h.environments (.child heap other places outer outer' region region') (fun id hid => ?_)
    (fun id hid id' hid' hsame => ?_) (fun id hid name => ?_) ⟨rfl, rfl, rfl⟩ ⟨rfl, rfl, rfl⟩
  · rw [size_child] at hid ⊢
    rcases Nat.lt_succ_iff_lt_or_eq.mp hid with hid | rfl
    · rw [Function.update_of_ne (Nat.ne_of_lt hid)]
      exact Nat.lt_succ_of_lt (h.inside id hid)
    · rw [Function.update_self]
      exact Nat.lt_succ_self _
  · rw [size_child] at hid hid'
    rcases Nat.lt_succ_iff_lt_or_eq.mp hid with hid | rfl <;>
      rcases Nat.lt_succ_iff_lt_or_eq.mp hid' with hid' | rfl
    · rw [Function.update_of_ne (Nat.ne_of_lt hid),
        Function.update_of_ne (Nat.ne_of_lt hid')] at hsame
      exact h.apart id hid id' hid' hsame
    · rw [Function.update_of_ne (Nat.ne_of_lt hid), Function.update_self] at hsame
      exact absurd hsame (hold id hid)
    · rw [Function.update_self, Function.update_of_ne (Nat.ne_of_lt hid')] at hsame
      exact absurd hsame.symm (hold id' hid')
    · rfl
  · rw [size_child] at hid
    rw [binding?, binding?, environment_child, environment_child]
    rcases Nat.lt_succ_iff_lt_or_eq.mp hid with hid | rfl
    · rw [Function.update_of_ne (Nat.ne_of_lt hid), if_neg (hold id hid),
        if_neg (Nat.ne_of_lt hid)]
      exact h.binding id hid name
    · rw [Function.update_self, if_pos rfl, if_pos rfl]

/-- An environment is made in the second heap only. -/
theorem childExtra (h : heap.Boxed demands places other) (outer' : EnvironmentId)
    (region' : Option Region) : heap.Boxed demands places (other.child outer' region').2 := by
  refine h.environments (.childExtra heap other places outer' region') (fun id hid => ?_) h.apart
    (fun id hid name => ?_) ⟨rfl, rfl, rfl⟩ ⟨rfl, rfl, rfl⟩
  · rw [size_child]
    exact Nat.lt_succ_of_lt (h.inside id hid)
  · rw [binding?, environment_child, if_neg (Nat.ne_of_lt (h.inside id hid))]
    exact h.binding id hid name

theorem addFunction (h : heap.Boxed demands places other) {closure closure' : Closure}
    (hclosure : closure.Boxed demands [] places heap other closure') :
    (heap.addFunction closure).2.Boxed demands places (other.addFunction closure').2 :=
  h.onwards (.of_environments rfl rfl) h.inside h.apart h.binding (h.alike.addFunction hclosure)

theorem addClass (h : heap.Boxed demands places other) {entry entry' : Class}
    (hentry : entry.Boxed demands places heap other entry') :
    (heap.addClass entry).2.Boxed demands places (other.addClass entry').2 :=
  h.onwards (.of_environments rfl rfl) h.inside h.apart h.binding (h.alike.addClass hentry.alike)

theorem addInstance (h : heap.Boxed demands places other) (id : ClassId) :
    (heap.addInstance id).2.Boxed demands places (other.addInstance id).2 :=
  h.onwards (.of_environments rfl rfl) h.inside h.apart h.binding (h.alike.addInstance id)

theorem setField (h : heap.Boxed demands places other) (receiver : InstanceId) (name : String)
    (value : Value) :
    (heap.setField receiver name value).Boxed demands places
      (other.setField receiver name value) :=
  h.onwards (.of_environments rfl rfl) h.inside h.apart h.binding
    (h.alike.setField receiver name value)

/-- An environment that binds one name is made in both heaps. -/
theorem bindChild (h : heap.Boxed demands places other) {outer outer' : EnvironmentId}
    (haround : heap.Around other places layers outer outer') (region region' : Option Region)
    (name : String) (value : Value) :
    ∃ later,
      let bound := (heap.child outer region).2.define (heap.child outer region).1 name value
      let bound' := (other.child outer' region').2.define (other.child outer' region').1 name value
      heap.Onwards other places bound bound' later ∧ bound.Boxed demands later bound' ∧
        bound.Around bound' later (.both :: layers) (heap.child outer region).1
          (other.child outer' region').1 := by
  have hentered := Onwards.child heap other places outer outer' region region'
  have hdefined := Onwards.define (heap.child outer region).2 (other.child outer' region').2
    (Function.update places heap.environments.size other.environments.size)
    (heap.child outer region).1 (other.child outer' region').1 name value
  have hnew : (heap.child outer region).1 < (heap.child outer region).2.environments.size := by
    rw [size_child]
    exact Nat.lt_succ_self _
  have hplace : Function.update places heap.environments.size other.environments.size
      (heap.child outer region).1 = (other.child outer' region').1 := Function.update_self _ _ _
  have hbound := (h.child outer outer' region region').define hnew name value
  rw [hplace] at hbound
  exact ⟨_, hentered.trans hdefined, hbound, (haround.child region region').onwards hdefined⟩

/-- A method is bound to an instance in both heaps. -/
theorem bindThis (h : heap.Boxed demands places other) {method method' : Closure}
    (hmethod : method.BoxedMethod demands places heap other method') (receiver : InstanceId) :
    ∃ later,
      heap.Onwards other places (heap.bindThis method receiver).2 (other.bindThis method' receiver).2
        later ∧
      (heap.bindThis method receiver).2.Boxed demands later (other.bindThis method' receiver).2 ∧
        (heap.bindThis method receiver).1.Boxed demands [] later
          (heap.bindThis method receiver).2 (other.bindThis method' receiver).2
          (other.bindThis method' receiver).1 := by
  obtain ⟨hinitializer, layers, hshared, hdeclared, haround⟩ := hmethod
  obtain ⟨later, honwards, hbound, hinside⟩ := h.bindChild haround
    (some (.receiver method.declaration)) (some (.receiver method'.declaration)) "this"
    (.instance_ receiver)
  exact ⟨later, honwards, hbound, hinitializer, .both :: layers, hshared, hdeclared, hinside⟩

/-- A bound method becomes a value in both heaps. -/
theorem boundMethod (h : heap.Boxed demands places other) {method method' : Closure}
    (hmethod : method.BoxedMethod demands places heap other method') (receiver : InstanceId) :
    ∃ later,
      heap.Onwards other places (heap.boundMethod method receiver).2
        (other.boundMethod method' receiver).2 later ∧
      (heap.boundMethod method receiver).2.Boxed demands later
        (other.boundMethod method' receiver).2 ∧
      (other.boundMethod method' receiver).1 = (heap.boundMethod method receiver).1 := by
  obtain ⟨later, honwards, hbound, hclosure⟩ := h.bindThis hmethod receiver
  exact ⟨later, honwards.trans (.of_environments rfl rfl), hbound.addFunction hclosure,
    congrArg Value.function hbound.functionCount⟩

/-! ## Lookups in both heaps -/

/-- A name is found at the widened distance. -/
theorem getAt? (h : heap.Boxed demands places other) {id id' : EnvironmentId}
    (haround : heap.Around other places layers id id') (distance : Nat) (name : String) :
    other.getAt? id' (layers.widen distance) name = heap.getAt? id distance name := by
  rw [Heap.getAt?, Heap.getAt?, haround.ancestor h.globals h.outermost h.outermost',
    h.binding _ (haround.ancestor_lt_size h.nonempty h.outermost distance)]

/-- A name is bound at the widened distance. -/
theorem assignAt (h : heap.Boxed demands places other) {id id' : EnvironmentId}
    (haround : heap.Around other places layers id id') (distance : Nat) (name : String)
    (value : Value) :
    (heap.assignAt id distance name value).Boxed demands places
      (other.assignAt id' (layers.widen distance) name value) := by
  rw [Heap.assignAt, Heap.assignAt, haround.ancestor h.globals h.outermost h.outermost']
  exact h.define (haround.ancestor_lt_size h.nonempty h.outermost distance) name value

/-- The global names are the same. -/
theorem binding?_globals (h : heap.Boxed demands places other) (name : String) :
    other.binding? Heap.globals name = heap.binding? Heap.globals name := by
  have hbinding := h.binding Heap.globals h.nonempty name
  rwa [h.globals] at hbinding

theorem findMethod? (h : heap.Boxed demands places other) (id : ClassId) (name : String) :
    Option.Rel (Closure.BoxedMethod demands places heap other) (heap.findMethod? id name)
      (other.findMethod? id name) :=
  h.alike.findMethod? id name

/-- Properties that are equal fields, or methods of which the second has extra blocks. -/
inductive Property (demands : Demands) (places : Places) (heap other : Heap) :
    Heap.Property → Heap.Property → Prop where
  | field (value : Value) : Property demands places heap other (.field value) (.field value)
  | method {method method' : Closure} : method.BoxedMethod demands places heap other method' →
      Property demands places heap other (.method method) (.method method')

theorem property? (h : heap.Boxed demands places other) (receiver : InstanceId) (name : String) :
    Option.Rel (Property demands places heap other) (heap.property? receiver name)
      (other.property? receiver name) :=
  h.alike.property? .field .method receiver name

/-- Things that can be called, of which the second may have extra blocks. -/
inductive Callable (demands : Demands) (places : Places) (heap other : Heap) :
    Heap.Callable → Heap.Callable → Prop where
  | native (native : Native) : Callable demands places heap other (.native native) (.native native)
  | closure {closure closure' : Closure} : closure.Boxed demands [] places heap other closure' →
      Callable demands places heap other (.closure closure) (.closure closure')
  | class_ (id : ClassId) : Callable demands places heap other (.class_ id) (.class_ id)

theorem callable? (h : heap.Boxed demands places other) (value : Value) :
    Option.Rel (Callable demands places heap other) (heap.callable? value)
      (other.callable? value) :=
  h.alike.callable? .native .closure .class_ value

theorem arity (h : heap.Boxed demands places other) {callable callable' : Heap.Callable}
    (hcallable : Callable demands places heap other callable callable') :
    other.arity callable' = heap.arity callable := by
  cases hcallable with
  | native native => rfl
  | closure hclosure => exact hclosure.arity
  | class_ id => exact h.alike.arity_class (fun _ _ hmethod => hmethod.arity) id

/-- A value has one text in both heaps. -/
theorem text (h : heap.Boxed demands places other) (value : Value) :
    other.text value = heap.text value := by
  refine h.alike.text (fun closure closure' hclosure => ?_) value
  obtain ⟨-, layers, -, hdeclared, -⟩ := hclosure
  rw [hdeclared.name]

end Heap.Boxed

end

end Lox
