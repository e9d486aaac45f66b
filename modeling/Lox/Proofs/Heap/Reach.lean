import Lox.Proofs.Heap.Change

/-!
# What can be reached on a heap

Environments, functions, classes and instances refer to one another. Whoever begins with references
to some places holds these later, and the places that were taken since. If nothing held refers to a
place that is not held, then changes to what is held keep it so, and leave all else as it is.
-/

namespace Lox

/-- A place on the heap. -/
inductive Location where
  | environment (id : EnvironmentId)
  | function (id : FunctionId)
  | class_ (id : ClassId)
  | instance_ (id : InstanceId)
  deriving DecidableEq

/-- The place that a value refers to, if it is no plain data. -/
def Value.location? : Value → Option Location
  | function id => some (.function id)
  | class_ id => some (.class_ id)
  | instance_ id => some (.instance_ id)
  | _ => none

namespace Heap

/-- What is at one place refers to another one. -/
inductive Refers (heap : Heap) : Location → Location → Prop where
  | binding {id : EnvironmentId} {name : String} {value : Value} {target : Location} :
      heap.binding? id name = some value → value.location? = some target →
        Refers heap (.environment id) target
  | enclosing {id outer : EnvironmentId} :
      (heap.environment id).enclosing = some outer →
        Refers heap (.environment id) (.environment outer)
  | closure (id : FunctionId) :
      Refers heap (.function id) (.environment (heap.closure id).environment)
  | method {id : ClassId} {name : String} {method : Closure} :
      (heap.class_ id).methods.get? name = some method →
        Refers heap (.class_ id) (.environment method.environment)
  | superclass {id parent : ClassId} :
      (heap.class_ id).superclass = some parent → Refers heap (.class_ id) (.class_ parent)
  | field {id : InstanceId} {name : String} {value : Value} {target : Location} :
      (heap.instance_ id).fields.get? name = some value → value.location? = some target →
        Refers heap (.instance_ id) target
  | class_ (id : InstanceId) :
      Refers heap (.instance_ id) (.class_ (heap.instance_ id).class_)

/-- References lead from one of some places to another place. -/
def Reachable (heap : Heap) (roots : List Location) (target : Location) : Prop :=
  ∃ root ∈ roots, Relation.ReflTransGen heap.Refers root target

/-- Whatever can be reached from places that refer only to each other is one of them. -/
theorem Reachable.of_closed {heap : Heap} {inside : Location → Prop} {roots : List Location}
    {target : Location} (hroots : ∀ root ∈ roots, inside root)
    (hclosed : ∀ source target, inside source → heap.Refers source target → inside target)
    (h : heap.Reachable roots target) : inside target := by
  obtain ⟨root, hroot, hpath⟩ := h
  induction hpath with
  | refl => exact hroots root hroot
  | tail _ href ih => exact hclosed _ _ ih href

/-- Nothing is at a place yet. -/
def Vacant (heap : Heap) : Location → Prop
  | .environment id => heap.environments.size ≤ id
  | .function id => heap.functions.size ≤ id
  | .class_ id => heap.classes.size ≤ id
  | .instance_ id => heap.instances.size ≤ id

/-! ## Fields -/

theorem instance_addInstance (heap : Heap) (id : ClassId) (place : InstanceId) :
    (heap.addInstance id).2.instance_ place =
      if place = heap.instances.size then ⟨id, .empty⟩ else heap.instance_ place := by
  simp only [addInstance, instance_, Array.getElem?_push]
  split <;> rfl

theorem class_setField (heap : Heap) (receiver place : InstanceId) (name : String)
    (value : Value) :
    ((heap.setField receiver name value).instance_ place).class_ =
      (heap.instance_ place).class_ := by
  by_cases hplace : receiver = place
  · subst hplace
    cases h : heap.instances[receiver]? <;>
      simp [setField, instance_, Array.getElem?_modify, h]
  · simp [setField, instance_, hplace, Array.getElem?_modify]

/-- Nothing else than the value that was stored is new among the fields. -/
theorem fields_setField {heap : Heap} {receiver place : InstanceId} {name other : String}
    {value read : Value}
    (h : ((heap.setField receiver name value).instance_ place).fields.get? other = some read) :
    (place = receiver ∧ read = value) ∨ (heap.instance_ place).fields.get? other = some read := by
  by_cases hplace : receiver = place
  · subst hplace
    cases hentry : heap.instances[receiver]? with
    | none =>
        simp only [setField, instance_, Array.getElem?_modify, hentry, if_true] at h ⊢
        exact .inr h
    | some entry =>
        have hold : heap.instance_ receiver = entry := by simp [instance_, hentry]
        have hset : (heap.setField receiver name value).instance_ receiver =
            { entry with fields := entry.fields.insert name value } := by
          simp [setField, instance_, Array.getElem?_modify, hentry]
        rw [hset, Table.get?_insert] at h
        rw [hold]
        split at h
        · cases h
          exact .inl ⟨rfl, rfl⟩
        · exact .inr h
  · simp only [setField, instance_, Array.getElem?_modify, hplace, if_false] at h ⊢
    exact .inr h

/-- Nothing else than the value that was bound is new among the bindings. -/
theorem binding?_define_cases {heap : Heap} {id place : EnvironmentId} {name other : String}
    {value read : Value} (h : (heap.define id name value).binding? place other = some read) :
    (place = id ∧ read = value) ∨ heap.binding? place other = some read := by
  by_cases hinside : id < heap.environments.size
  · rw [binding?_define _ _ _ _ _ _ hinside] at h
    split at h
    · next hsame =>
        cases h
        exact .inl ⟨hsame.1.symm, rfl⟩
    · exact .inr h
  · rw [binding?, environment_define_of_size_le (Nat.le_of_not_lt hinside)] at h
    exact .inr h

/-! ## Taking places -/

/-- The heap is `later` one in which just one more place is taken. -/
structure Takes (heap later : Heap) (location : Location) : Prop where
  before : heap.Vacant location
  after : ∀ other, later.Vacant other ↔ heap.Vacant other ∧ other ≠ location

theorem past_iff {size place : Nat} : size + 1 ≤ place ↔ size ≤ place ∧ ¬place = size := by
  omega

theorem takes_child (heap : Heap) (outer : EnvironmentId) (region : Option Region) :
    heap.Takes (heap.child outer region).2 (.environment (heap.child outer region).1) := by
  refine ⟨Nat.le_refl _, fun other => ?_⟩
  cases other with
  | environment id =>
      simp only [Vacant, child, Array.size_push, ne_eq, Location.environment.injEq]
      exact past_iff
  | _ => simp [Vacant, child]

theorem takes_addFunction (heap : Heap) (closure : Closure) :
    heap.Takes (heap.addFunction closure).2 (.function (heap.addFunction closure).1) := by
  refine ⟨Nat.le_refl _, fun other => ?_⟩
  cases other with
  | function id =>
      simp only [Vacant, addFunction, Array.size_push, ne_eq, Location.function.injEq]
      exact past_iff
  | _ => simp [Vacant, addFunction]

theorem takes_addClass (heap : Heap) (entry : Class) :
    heap.Takes (heap.addClass entry).2 (.class_ (heap.addClass entry).1) := by
  refine ⟨Nat.le_refl _, fun other => ?_⟩
  cases other with
  | class_ id =>
      simp only [Vacant, addClass, Array.size_push, ne_eq, Location.class_.injEq]
      exact past_iff
  | _ => simp [Vacant, addClass]

theorem takes_addInstance (heap : Heap) (id : ClassId) :
    heap.Takes (heap.addInstance id).2 (.instance_ (heap.addInstance id).1) := by
  refine ⟨Nat.le_refl _, fun other => ?_⟩
  cases other with
  | instance_ id =>
      simp only [Vacant, addInstance, Array.size_push, ne_eq, Location.instance_.injEq]
      exact past_iff
  | _ => simp [Vacant, addInstance]

theorem vacant_define (heap : Heap) (id : EnvironmentId) (name : String) (value : Value)
    (location : Location) : (heap.define id name value).Vacant location ↔ heap.Vacant location := by
  cases location with
  | environment place => simp only [Vacant, size_define]
  | _ => exact Iff.rfl

theorem vacant_setField (heap : Heap) (receiver : InstanceId) (name : String) (value : Value)
    (location : Location) :
    (heap.setField receiver name value).Vacant location ↔ heap.Vacant location := by
  cases location with
  | instance_ place => simp [Vacant, setField]
  | _ => exact Iff.rfl

end Heap

/-! ## Holding places -/

/-- The heap on which something begins, and the places to which it has references then. -/
structure Outset where
  heap : Heap
  known : Location → Prop

namespace Outset

/-- The place was known at the outset, or was taken since. -/
def Holds (outset : Outset) (heap : Heap) (location : Location) : Prop :=
  outset.known location ∨ outset.heap.Vacant location ∧ ¬heap.Vacant location

/-- The place was taken at the outset already, but not known. -/
def Spares (outset : Outset) (location : Location) : Prop :=
  ¬outset.known location ∧ ¬outset.heap.Vacant location

/-- The value is plain data, or refers to a place that is held. -/
def HoldsValue (outset : Outset) (heap : Heap) (value : Value) : Prop :=
  ∀ location, value.location? = some location → outset.Holds heap location

/-- The environment of a closure is held. -/
def HoldsClosure (outset : Outset) (heap : Heap) (closure : Closure) : Prop :=
  outset.Holds heap (.environment closure.environment)

/-- The heap comes after the outset, and what is held refers only to what is held. -/
structure Confines (outset : Outset) (heap : Heap) : Prop where
  globals : outset.Holds heap (.environment Heap.globals)
  vacant : ∀ {location}, heap.Vacant location → outset.heap.Vacant location
  closed : ∀ {source target}, outset.Holds heap source → heap.Refers source target →
    outset.Holds heap target

/-- Every environment but the globals is inside one that was made before it or was known at the
outset, and every class extends only such a one. -/
structure Ordered (outset : Outset) (heap : Heap) : Prop where
  enclosing : ∀ id < heap.environments.size, id ≠ Heap.globals →
    ∃ outer, (heap.environment id).enclosing = some outer ∧
      (outer < id ∨ outset.known (.environment outer))
  superclass : ∀ {id parent}, (heap.class_ id).superclass = some parent →
    parent < id ∨ outset.known (.class_ parent)

/-- The heap `later` comes after `heap`, is confined too, and what is not held is as it was. -/
structure Keeps (outset : Outset) (heap later : Heap) : Prop where
  confined : outset.Confines later
  vacant : ∀ {location}, later.Vacant location → heap.Vacant location
  environments : ∀ id, outset.Spares (.environment id) →
    later.environments[id]? = heap.environments[id]?
  instances : ∀ id, outset.Spares (.instance_ id) → later.instances[id]? = heap.instances[id]?
  ordered : outset.Ordered heap → outset.Ordered later

variable {outset : Outset} {heap middle later : Heap} {location : Location}

theorem Holds.not_spares (h : outset.Holds heap location) : ¬outset.Spares location :=
  fun hspares => h.elim hspares.1 fun htaken => hspares.2 htaken.1

namespace Keeps

theorem refl (h : outset.Confines heap) : outset.Keeps heap heap :=
  ⟨h, fun hvacant => hvacant, fun _ _ => rfl, fun _ _ => rfl, fun hordered => hordered⟩

theorem trans (first : outset.Keeps heap middle) (second : outset.Keeps middle later) :
    outset.Keeps heap later :=
  ⟨second.confined, fun hvacant => first.vacant (second.vacant hvacant),
    fun id hid => (second.environments id hid).trans (first.environments id hid),
    fun id hid => (second.instances id hid).trans (first.instances id hid),
    fun hordered => second.ordered (first.ordered hordered)⟩

end Keeps

/-- What was held is held later. -/
theorem Holds.mono (h : outset.Holds heap location)
    (hvacant : ∀ {location}, later.Vacant location → heap.Vacant location) :
    outset.Holds later location :=
  h.imp_right fun htaken => ⟨htaken.1, fun hlater => htaken.2 (hvacant hlater)⟩

theorem Holds.keeps (h : outset.Holds heap location) (hkeeps : outset.Keeps heap later) :
    outset.Holds later location :=
  h.mono hkeeps.vacant

theorem HoldsValue.keeps {value : Value} (h : outset.HoldsValue heap value)
    (hkeeps : outset.Keeps heap later) : outset.HoldsValue later value :=
  fun location hlocation => (h location hlocation).keeps hkeeps

theorem HoldsClosure.keeps {closure : Closure} (h : outset.HoldsClosure heap closure)
    (hkeeps : outset.Keeps heap later) : outset.HoldsClosure later closure :=
  Holds.keeps h hkeeps

/-! ## What is read -/

namespace Confines

variable {id : EnvironmentId} {name : String}

theorem binding? (h : outset.Confines heap) {value : Value}
    (hid : outset.Holds heap (.environment id)) (hvalue : heap.binding? id name = some value) :
    outset.HoldsValue heap value :=
  fun _ hlocation => h.closed hid (.binding hvalue hlocation)

theorem ancestor (h : outset.Confines heap) (hid : outset.Holds heap (.environment id))
    (distance : Nat) : outset.Holds heap (.environment (heap.ancestor id distance)) := by
  induction distance generalizing id with
  | zero => exact hid
  | succ distance ih =>
      rw [Heap.ancestor]
      cases houter : (heap.environment id).enclosing with
      | none => exact hid
      | some outer => exact ih (h.closed hid (.enclosing houter))

theorem getAt? (h : outset.Confines heap) {value : Value} {distance : Nat}
    (hid : outset.Holds heap (.environment id))
    (hvalue : heap.getAt? id distance name = some value) :
    outset.HoldsValue heap value :=
  h.binding? (h.ancestor hid distance) hvalue

theorem chainFrom (h : outset.Confines heap) (hid : outset.Holds heap (.environment id))
    (fuel : Nat) : ∀ place ∈ heap.chainFrom fuel id, outset.Holds heap (.environment place) := by
  induction fuel generalizing id with
  | zero => exact List.forall_mem_singleton.mpr hid
  | succ fuel ih =>
      rw [Heap.chainFrom]
      cases houter : (heap.environment id).enclosing with
      | none => exact List.forall_mem_singleton.mpr hid
      | some outer =>
          exact List.forall_mem_cons.mpr ⟨hid, ih (h.closed hid (.enclosing houter))⟩

theorem binder? (h : outset.Confines heap) {binder : EnvironmentId}
    (hid : outset.Holds heap (.environment id)) (hbinder : heap.binder? id name = some binder) :
    outset.Holds heap (.environment binder) :=
  h.chainFrom hid _ binder (List.mem_of_find?_eq_some hbinder)

theorem get? (h : outset.Confines heap) {value : Value}
    (hid : outset.Holds heap (.environment id)) (hvalue : heap.get? id name = some value) :
    outset.HoldsValue heap value := by
  obtain ⟨binder, hbinder, hbound⟩ := Option.bind_eq_some_iff.mp hvalue
  exact h.binding? (h.binder? hid hbinder) hbound

theorem lineageFrom (h : outset.Confines heap) {id : ClassId}
    (hid : outset.Holds heap (.class_ id)) (fuel : Nat) :
    ∀ place ∈ heap.lineageFrom fuel id, outset.Holds heap (.class_ place) := by
  induction fuel generalizing id with
  | zero => exact List.forall_mem_singleton.mpr hid
  | succ fuel ih =>
      rw [Heap.lineageFrom]
      cases hparent : (heap.class_ id).superclass with
      | none => exact List.forall_mem_singleton.mpr hid
      | some parent =>
          exact List.forall_mem_cons.mpr ⟨hid, ih (h.closed hid (.superclass hparent))⟩

theorem findMethod? (h : outset.Confines heap) {id : ClassId} {method : Closure}
    (hid : outset.Holds heap (.class_ id)) (hmethod : heap.findMethod? id name = some method) :
    outset.HoldsClosure heap method := by
  obtain ⟨place, hplace, hfound⟩ := List.exists_of_findSome?_eq_some hmethod
  exact h.closed (h.lineageFrom hid _ place hplace) (.method hfound)

/-- A field's value is held, or the closure of a method. -/
theorem property? (h : outset.Confines heap) {receiver : InstanceId} {property : Heap.Property}
    (hreceiver : outset.Holds heap (.instance_ receiver))
    (hproperty : heap.property? receiver name = some property) :
    match property with
    | .field value => outset.HoldsValue heap value
    | .method method => outset.HoldsClosure heap method := by
  rw [Heap.property?] at hproperty
  cases hfield : (heap.instance_ receiver).fields.get? name with
  | some value =>
      simp only [hfield, Option.some.injEq] at hproperty
      subst hproperty
      exact fun location hlocation => h.closed hreceiver (.field hfield hlocation)
  | none =>
      simp only [hfield, Option.map_eq_some_iff] at hproperty
      obtain ⟨method, hmethod, rfl⟩ := hproperty
      exact h.findMethod? (h.closed hreceiver (.class_ receiver)) hmethod

end Confines

/-! ## What is changed -/

namespace Confines

/-- A change that takes no place, after which references are old ones or lead to what is held. -/
theorem change (h : outset.Confines heap)
    (hvacant : ∀ location, later.Vacant location ↔ heap.Vacant location)
    (hrefers : ∀ {source target}, later.Refers source target →
      heap.Refers source target ∨ outset.Holds heap target) : outset.Confines later where
  globals := h.globals.mono (hvacant _).mp
  vacant hlocation := h.vacant ((hvacant _).mp hlocation)
  closed hsource href := by
    have hbefore := hsource.mono (hvacant _).mpr
    exact ((hrefers href).elim (h.closed hbefore) id).mono (hvacant _).mp

/-- A change that takes one place, after which references are old ones from other places or lead to
what is held. -/
theorem take (h : outset.Confines heap) (htakes : heap.Takes later location)
    (hrefers : ∀ {source target}, later.Refers source target →
      (source ≠ location ∧ heap.Refers source target) ∨ outset.Holds heap target)
    (henvironments : ∀ id, .environment id ≠ location →
      later.environments[id]? = heap.environments[id]?)
    (hinstances : ∀ id, .instance_ id ≠ location → later.instances[id]? = heap.instances[id]?)
    (hordered : outset.Ordered heap → outset.Ordered later) :
    outset.Keeps heap later ∧ outset.Holds later location := by
  have hvacant {other : Location} (hother : later.Vacant other) : heap.Vacant other :=
    ((htakes.after other).mp hother).1
  have hspared {other : Location} (hother : outset.Spares other) : other ≠ location := by
    rintro rfl
    exact hother.2 (h.vacant htakes.before)
  have hconfined : outset.Confines later := by
    refine ⟨h.globals.mono hvacant, fun hother => h.vacant (hvacant hother), ?_⟩
    intro source target hsource href
    obtain ⟨hne, hold⟩ | hnew := hrefers href
    -- a place that refers to what it did is not the new one, so that it was held before
    · have hbefore : outset.Holds heap source := hsource.imp_right fun htaken =>
        ⟨htaken.1, fun hsource => htaken.2 ((htakes.after source).mpr ⟨hsource, hne⟩)⟩
      exact (h.closed hbefore hold).mono hvacant
    · exact hnew.mono hvacant
  exact ⟨⟨hconfined, hvacant, fun id hid => henvironments id (hspared hid),
    fun id hid => hinstances id (hspared hid), hordered⟩,
    .inr ⟨h.vacant htakes.before, fun hlater => ((htakes.after location).mp hlater).2 rfl⟩⟩

theorem define (h : outset.Confines heap) {id : EnvironmentId} (name : String) {value : Value}
    (hid : outset.Holds heap (.environment id)) (hvalue : outset.HoldsValue heap value) :
    outset.Keeps heap (heap.define id name value) := by
  have hvacant := heap.vacant_define id name value
  refine ⟨h.change hvacant fun href => ?_, (hvacant _).mp, fun place hplace => ?_, fun _ _ => rfl,
    fun hordered => ⟨fun place hplace => ?_, hordered.superclass⟩⟩
  · cases href with
    | binding hread hlocation =>
        obtain ⟨-, rfl⟩ | hread := Heap.binding?_define_cases hread
        · exact .inr (hvalue _ hlocation)
        · exact .inl (.binding hread hlocation)
    | enclosing houter =>
        rw [Heap.enclosing_define] at houter
        exact .inl (.enclosing houter)
    | closure id => exact .inl (.closure id)
    | method hmethod => exact .inl (.method hmethod)
    | superclass hparent => exact .inl (.superclass hparent)
    | field hread hlocation => exact .inl (.field hread hlocation)
    | class_ id => exact .inl (.class_ id)
  · have hne : ¬id = place := by
      rintro rfl
      exact hid.not_spares hplace
    simp [Heap.define, Array.getElem?_modify, hne]
  · rw [Heap.enclosing_define]
    rw [Heap.size_define] at hplace
    exact hordered.enclosing place hplace

theorem setField (h : outset.Confines heap) {receiver : InstanceId} (name : String) {value : Value}
    (hreceiver : outset.Holds heap (.instance_ receiver)) (hvalue : outset.HoldsValue heap value) :
    outset.Keeps heap (heap.setField receiver name value) := by
  have hvacant := heap.vacant_setField receiver name value
  refine ⟨h.change hvacant fun href => ?_, (hvacant _).mp, fun _ _ => rfl, fun place hplace => ?_,
    fun hordered => ⟨hordered.enclosing, hordered.superclass⟩⟩
  · cases href with
    | binding hread hlocation => exact .inl (.binding hread hlocation)
    | enclosing houter => exact .inl (.enclosing houter)
    | closure id => exact .inl (.closure id)
    | method hmethod => exact .inl (.method hmethod)
    | superclass hparent => exact .inl (.superclass hparent)
    | field hread hlocation =>
        obtain ⟨-, rfl⟩ | hread := Heap.fields_setField hread
        · exact .inr (hvalue _ hlocation)
        · exact .inl (.field hread hlocation)
    | class_ id =>
        rw [Heap.class_setField]
        exact .inl (.class_ id)
  · have hne : ¬receiver = place := by
      rintro rfl
      exact hreceiver.not_spares hplace
    simp [Heap.setField, Array.getElem?_modify, hne]

theorem child (h : outset.Confines heap) {outer : EnvironmentId} (region : Option Region)
    (houter : outset.Holds heap (.environment outer)) :
    outset.Keeps heap (heap.child outer region).2 ∧
      outset.Holds (heap.child outer region).2 (.environment (heap.child outer region).1) := by
  refine h.take (heap.takes_child outer region) (fun href => ?_) (fun id hid => ?_)
    (fun _ _ => rfl) fun hordered => ⟨fun id hid hglobals => ?_, hordered.superclass⟩
  · cases href with
    | binding hread hlocation =>
        rw [Heap.binding?, Heap.environment_child] at hread
        split at hread
        · cases hread
        · next hplace =>
            exact .inl ⟨fun heq => hplace (Location.environment.inj heq), .binding hread hlocation⟩
    | enclosing htarget =>
        rw [Heap.environment_child] at htarget
        split at htarget
        · cases htarget
          exact .inr houter
        · next hplace =>
            exact .inl ⟨fun heq => hplace (Location.environment.inj heq), .enclosing htarget⟩
    | closure id => exact .inl ⟨by simp, .closure id⟩
    | method hmethod => exact .inl ⟨by simp, .method hmethod⟩
    | superclass hparent => exact .inl ⟨by simp, .superclass hparent⟩
    | field hread hlocation => exact .inl ⟨by simp, .field hread hlocation⟩
    | class_ id => exact .inl ⟨by simp, .class_ id⟩
  · have hne : ¬id = heap.environments.size := fun heq => hid (congrArg Location.environment heq)
    simp [Heap.child, Array.getElem?_push, hne]
  · rw [Heap.environment_child]
    split
    · next hnew =>
        refine ⟨outer, rfl, houter.elim .inr fun htaken => .inl ?_⟩
        rw [hnew]
        exact Nat.lt_of_not_le htaken.2
    · next hold =>
        rw [Heap.size_child] at hid
        exact hordered.enclosing id (Nat.lt_of_le_of_ne (Nat.le_of_lt_succ hid) hold) hglobals

theorem addFunction (h : outset.Confines heap) (closure : Closure)
    (hclosure : outset.HoldsClosure heap closure) :
    outset.Keeps heap (heap.addFunction closure).2 ∧
      outset.Holds (heap.addFunction closure).2 (.function (heap.addFunction closure).1) := by
  refine h.take (heap.takes_addFunction closure) (fun href => ?_) (fun _ _ => rfl) (fun _ _ => rfl)
    fun hordered => ⟨hordered.enclosing, hordered.superclass⟩
  cases href with
  | binding hread hlocation => exact .inl ⟨nofun, .binding hread hlocation⟩
  | enclosing houter => exact .inl ⟨nofun, .enclosing houter⟩
  | closure id =>
      rw [Heap.closure_addFunction]
      split
      · exact .inr hclosure
      · next hid => exact .inl ⟨fun heq => hid (Location.function.inj heq), .closure id⟩
  | method hmethod => exact .inl ⟨nofun, .method hmethod⟩
  | superclass hparent => exact .inl ⟨nofun, .superclass hparent⟩
  | field hread hlocation => exact .inl ⟨nofun, .field hread hlocation⟩
  | class_ id => exact .inl ⟨nofun, .class_ id⟩

theorem addClass (h : outset.Confines heap) (entry : Class)
    (hsuperclass : ∀ parent, entry.superclass = some parent → outset.Holds heap (.class_ parent))
    (hmethods : ∀ name method, entry.methods.get? name = some method →
      outset.HoldsClosure heap method) :
    outset.Keeps heap (heap.addClass entry).2 ∧
      outset.Holds (heap.addClass entry).2 (.class_ (heap.addClass entry).1) := by
  refine h.take (heap.takes_addClass entry) (fun href => ?_) (fun _ _ => rfl) (fun _ _ => rfl)
    fun hordered => ⟨hordered.enclosing, fun hparent => ?_⟩
  · cases href with
    | binding hread hlocation => exact .inl ⟨nofun, .binding hread hlocation⟩
    | enclosing houter => exact .inl ⟨nofun, .enclosing houter⟩
    | closure id => exact .inl ⟨nofun, .closure id⟩
    | method hmethod =>
        rw [Heap.class_addClass] at hmethod
        split at hmethod
        · exact .inr (hmethods _ _ hmethod)
        · next hid => exact .inl ⟨fun heq => hid (Location.class_.inj heq), .method hmethod⟩
    | superclass hparent =>
        rw [Heap.class_addClass] at hparent
        split at hparent
        · exact .inr (hsuperclass _ hparent)
        · next hid => exact .inl ⟨fun heq => hid (Location.class_.inj heq), .superclass hparent⟩
    | field hread hlocation => exact .inl ⟨nofun, .field hread hlocation⟩
    | class_ id => exact .inl ⟨nofun, .class_ id⟩
  · rw [Heap.class_addClass] at hparent
    split at hparent
    · next hnew =>
        refine (hsuperclass _ hparent).elim .inr fun htaken => .inl ?_
        rw [hnew]
        exact Nat.lt_of_not_le htaken.2
    · exact hordered.superclass hparent

theorem addInstance (h : outset.Confines heap) {id : ClassId}
    (hid : outset.Holds heap (.class_ id)) :
    outset.Keeps heap (heap.addInstance id).2 ∧
      outset.Holds (heap.addInstance id).2 (.instance_ (heap.addInstance id).1) := by
  refine h.take (heap.takes_addInstance id) (fun href => ?_) (fun _ _ => rfl)
    (fun place hplace => ?_) fun hordered => ⟨hordered.enclosing, hordered.superclass⟩
  · cases href with
    | binding hread hlocation => exact .inl ⟨nofun, .binding hread hlocation⟩
    | enclosing houter => exact .inl ⟨nofun, .enclosing houter⟩
    | closure id => exact .inl ⟨nofun, .closure id⟩
    | method hmethod => exact .inl ⟨nofun, .method hmethod⟩
    | superclass hparent => exact .inl ⟨nofun, .superclass hparent⟩
    | field hread hlocation =>
        rw [Heap.instance_addInstance] at hread
        split at hread
        · cases hread
        · next hplace =>
            exact .inl ⟨fun heq => hplace (Location.instance_.inj heq), .field hread hlocation⟩
    | class_ place =>
        rw [Heap.instance_addInstance]
        split
        · exact .inr hid
        · next hplace =>
            exact .inl ⟨fun heq => hplace (Location.instance_.inj heq), .class_ place⟩
  · have hne : ¬place = heap.instances.size := fun heq => hplace (congrArg Location.instance_ heq)
    simp [Heap.addInstance, Array.getElem?_push, hne]

/-- A method that is bound to an instance. -/
theorem bindThis (h : outset.Confines heap) {method : Closure} {receiver : InstanceId}
    (hmethod : outset.HoldsClosure heap method)
    (hreceiver : outset.Holds heap (.instance_ receiver)) :
    outset.Keeps heap (heap.bindThis method receiver).2 ∧
      outset.HoldsClosure (heap.bindThis method receiver).2 (heap.bindThis method receiver).1 := by
  obtain ⟨hchild, hplace⟩ := h.child (some (.receiver method.declaration)) hmethod
  have hvalue : outset.HoldsValue (heap.child method.environment
      (some (.receiver method.declaration))).2 (.instance_ receiver) := by
    rintro location ⟨⟩
    exact hreceiver.keeps hchild
  have hdefine := hchild.confined.define "this" hplace hvalue
  exact ⟨hchild.trans hdefine, hplace.keeps hdefine⟩

/-- A method that is bound to an instance and becomes a value. -/
theorem boundMethod (h : outset.Confines heap) {method : Closure} {receiver : InstanceId}
    (hmethod : outset.HoldsClosure heap method)
    (hreceiver : outset.Holds heap (.instance_ receiver)) :
    outset.Keeps heap (heap.boundMethod method receiver).2 ∧
      outset.HoldsValue (heap.boundMethod method receiver).2
        (heap.boundMethod method receiver).1 := by
  obtain ⟨hbound, hclosure⟩ := h.bindThis hmethod hreceiver
  obtain ⟨hadded, hfunction⟩ := hbound.confined.addFunction _ hclosure
  refine ⟨hbound.trans hadded, ?_⟩
  rintro location ⟨⟩
  exact hfunction

end Confines

/-! ## From roots -/

/-- Someone who begins with references to some places and knows what can be reached from them. -/
def ofRoots (heap : Heap) (roots : List Location) : Outset :=
  ⟨heap, heap.Reachable roots⟩

theorem ofRoots_confines (heap : Heap) {roots : List Location}
    (hglobals : .environment Heap.globals ∈ roots) : (ofRoots heap roots).Confines heap where
  globals := .inl ⟨_, hglobals, .refl⟩
  vacant hvacant := hvacant
  closed hsource href := by
    obtain ⟨root, hroot, hpath⟩ | ⟨hvacant, htaken⟩ := hsource
    · exact .inl ⟨root, hroot, hpath.tail href⟩
    · exact absurd hvacant htaken

end Outset

end Lox
