import Lox.Proofs.Heap.Founded
import Lox.Run.Statement

/-!
# Objects and what happens to them

A program declares classes, makes instances and stores fields. From these events in their order
follows all that a heap says about classes and instances: a field has the value that was stored
last, an instance has the class of which it was made, and a class offers the methods that it
declares, the last one of each name, or else those of the class that it extends.
-/

namespace Lox.Run

/-! ## The last of some -/

section

variable {α : Type} {P : α → Prop} {xs : List α} {x : α}

/-- The last entry of a list that has a property. -/
def LastOf (P : α → Prop) (xs : List α) (x : α) : Prop :=
  ∃ before after, xs = before ++ x :: after ∧ P x ∧ ∀ later ∈ after, ¬P later

theorem not_lastOf_nil : ¬LastOf P [] x := by
  rintro ⟨before, after, hnil, -⟩
  simp at hnil

theorem lastOf_cons {first : α} :
    LastOf P (first :: xs) x ↔ LastOf P xs x ∨ (x = first ∧ P x ∧ ∀ later ∈ xs, ¬P later) := by
  constructor
  · rintro ⟨before, after, heq, hx, hafter⟩
    cases before with
    | nil =>
        obtain ⟨rfl, rfl⟩ := List.cons.inj heq
        exact .inr ⟨rfl, hx, hafter⟩
    | cons _ before =>
        obtain ⟨rfl, rfl⟩ := List.cons.inj heq
        exact .inl ⟨before, after, rfl, hx, hafter⟩
  · rintro (⟨before, after, rfl, hx, hafter⟩ | ⟨rfl, hx, hafter⟩)
    · exact ⟨first :: before, after, rfl, hx, hafter⟩
    · exact ⟨[], xs, rfl, hx, hafter⟩

theorem lastOf_or_none (P : α → Prop) (xs : List α) : (∃ x, LastOf P xs x) ∨ ∀ x ∈ xs, ¬P x := by
  induction xs with
  | nil => exact .inr nofun
  | cons first rest ih =>
      obtain ⟨x, hx⟩ | hnone := ih
      · exact .inl ⟨x, lastOf_cons.mpr (.inl hx)⟩
      · by_cases hfirst : P first
        · exact .inl ⟨first, lastOf_cons.mpr (.inr ⟨rfl, hfirst, hnone⟩)⟩
        · exact .inr (List.forall_mem_cons.mpr ⟨hfirst, hnone⟩)

end

/-! ## Events -/

/-- A class as it was declared: its name, the class that it extends, the environment that its
methods close over, and these. -/
structure Declared where
  name : String
  superclass : Option ClassId
  place : EnvironmentId
  methods : List FunctionDecl

/-- A method of the class as a closure. -/
def Declared.closure (declared : Declared) (method : FunctionDecl) : Closure :=
  ⟨method, declared.place, method.isInitializer⟩

/-- The class on the heap. -/
def Declared.entry (declared : Declared) : Class :=
  ⟨declared.name, declared.superclass, methodTable declared.place declared.methods⟩

/-- What happens to classes and instances: a class is declared, an instance of a class is made, or a
field of an instance is stored. -/
inductive Event where
  | declare (declared : Declared)
  | make (id : ClassId)
  | store (receiver : InstanceId) (name : String) (value : Value)

/-- The classes and instances of a heap. -/
structure Objects where
  classes : Array Class
  instances : Array Instance

/-- The classes and instances of the heap. -/
def objects (heap : Heap) : Objects :=
  ⟨heap.classes, heap.instances⟩

namespace Event

/-- The objects after an event. -/
def apply (objects : Objects) : Event → Objects
  | declare declared => { objects with classes := objects.classes.push declared.entry }
  | make id => { objects with instances := objects.instances.push ⟨id, .empty⟩ }
  | store receiver name value => { objects with
      instances := objects.instances.modify receiver fun entry =>
        { entry with fields := entry.fields.insert name value } }

/-- An event is about instances that there are. -/
def Fits (objects : Objects) : Event → Prop
  | declare _ | make _ => True
  | store receiver _ _ => receiver < objects.instances.size

/-- The event stores this field. -/
def Stores (receiver : InstanceId) (name : String) (event : Event) : Prop :=
  ∃ value, event = store receiver name value

/-- The class that the event declares. -/
def declared? : Event → Option Declared
  | declare declared => some declared
  | _ => none

/-- The class of the instance that the event makes. -/
def made? : Event → Option ClassId
  | make id => some id
  | _ => none

end Event

/-- Events happen one after the other, each about what there is then. -/
inductive Plays : Objects → List Event → Objects → Prop where
  | nil {objects : Objects} : Plays objects [] objects
  | cons {objects last : Objects} {event : Event} {rest : List Event} :
      event.Fits objects → Plays (event.apply objects) rest last →
        Plays objects (event :: rest) last

/-- The value is the one that was last stored in the field. -/
def Latest (log : List Event) (receiver : InstanceId) (name : String) (value : Value) : Prop :=
  LastOf (Event.Stores receiver name) log (.store receiver name value)

/-- The classes that were declared, in their order. -/
def declaredIn (log : List Event) : List Declared :=
  log.filterMap Event.declared?

/-- The classes of the instances that were made, in their order. -/
def madeIn (log : List Event) : List ClassId :=
  log.filterMap Event.made?

namespace Plays

variable {before middle after : Objects} {log further : List Event}

theorem append (first : Plays before log middle) (second : Plays middle further after) :
    Plays before (log ++ further) after := by
  induction first with
  | nil => exact second
  | cons hfits _ ih => exact .cons hfits (ih second)

theorem of_append (h : Plays before (log ++ further) after) :
    ∃ middle, Plays before log middle ∧ Plays middle further after := by
  induction log generalizing before with
  | nil => exact ⟨before, .nil, h⟩
  | cons event rest ih =>
      cases h with
      | cons hfits hrest =>
          obtain ⟨middle, hfirst, hsecond⟩ := ih hrest
          exact ⟨middle, .cons hfits hfirst, hsecond⟩

/-! ## Fields -/

/-- The value of a field. -/
def field? (objects : Objects) (receiver : InstanceId) (name : String) : Option Value :=
  objects.instances[receiver]?.bind (·.fields.get? name)

theorem field?_store {objects : Objects} {receiver : InstanceId}
    (hreceiver : receiver < objects.instances.size) (name : String) (value : Value)
    (place : InstanceId) (other : String) :
    field? (Event.apply objects (.store receiver name value)) place other =
      if receiver = place ∧ name = other then some value else field? objects place other := by
  by_cases hplace : receiver = place
  · subst hplace
    simp [field?, Event.apply, Array.getElem_modify, hreceiver, Table.get?_insert]
  · simp [field?, Event.apply, Array.getElem?_modify, hplace]

/-- What does not store a field leaves it. -/
theorem field?_apply {event : Event} {receiver : InstanceId} {name : String}
    (hfits : event.Fits before) (hother : ¬event.Stores receiver name) :
    field? (event.apply before) receiver name = field? before receiver name := by
  cases event with
  | declare declared => rfl
  | make id =>
      simp only [field?, Event.apply, Array.getElem?_push]
      split
      · next hnew => simp [hnew]
      · rfl
  | store place other value =>
      rw [field?_store hfits, if_neg]
      rintro ⟨rfl, rfl⟩
      exact hother ⟨value, rfl⟩

theorem field?_eq {receiver : InstanceId} {name : String} (h : Plays before log after)
    (hnone : ∀ event ∈ log, ¬event.Stores receiver name) :
    field? after receiver name = field? before receiver name := by
  induction h with
  | nil => rfl
  | cons hfits _ ih =>
      obtain ⟨hfirst, hrest⟩ := List.forall_mem_cons.mp hnone
      rw [ih hrest, field?_apply hfits hfirst]

/-- A field has the value that was last stored in it. -/
theorem field?_latest {receiver : InstanceId} {name : String} {value : Value}
    (h : Plays before log after) (hlatest : Latest log receiver name value) :
    field? after receiver name = some value := by
  obtain ⟨earlier, later, rfl, -, hlater⟩ := hlatest
  obtain ⟨middle, -, hrest⟩ := h.of_append
  cases hrest with
  | cons hfits hrest =>
      rw [hrest.field?_eq hlater, field?_store hfits, if_pos ⟨rfl, rfl⟩]

/-! ## Classes -/

theorem classes_eq (h : Plays before log after) :
    after.classes.toList = before.classes.toList ++ (declaredIn log).map Declared.entry := by
  induction h with
  | nil => simp [declaredIn]
  | @cons objects last event rest _ _ ih =>
      rw [ih]
      cases event <;> simp [Event.apply, declaredIn, List.filterMap_cons, Event.declared?]

/-- Every instance has the class of which it was made. -/
theorem made_eq (h : Plays before log after) :
    after.instances.toList.map Instance.class_ =
      before.instances.toList.map Instance.class_ ++ madeIn log := by
  induction h with
  | nil => simp [madeIn]
  | @cons objects last event rest _ _ ih =>
      rw [ih]
      cases event with
      | declare declared => simp [Event.apply, madeIn, List.filterMap_cons, Event.made?]
      | make id => simp [Event.apply, madeIn, Event.made?]
      | store receiver name value =>
          have hsame : (Event.apply objects (.store receiver name value)).instances.toList.map
              Instance.class_ = objects.instances.toList.map Instance.class_ := by
            apply List.ext_getElem?
            intro place
            simp only [Event.apply, List.getElem?_map, Array.getElem?_toList,
              Array.getElem?_modify]
            split <;> cases objects.instances[place]? <;> rfl
          rw [hsame]
          simp [madeIn, List.filterMap_cons, Event.made?]

end Plays

/-! ## Methods -/

section

variable {place : EnvironmentId} {methods : List FunctionDecl} {name : String}

/-- Methods of other names make no difference. -/
theorem methodTable_of_not_mem (hnone : ∀ method ∈ methods, method.name.lexeme ≠ name)
    (table : Table Closure) :
    (methods.foldl (fun table method => table.insert method.name.lexeme
      ⟨method, place, method.isInitializer⟩) table).get? name = table.get? name := by
  induction methods generalizing table with
  | nil => rfl
  | cons first rest ih =>
      obtain ⟨hfirst, hrest⟩ := List.forall_mem_cons.mp hnone
      rw [List.foldl_cons, ih hrest, Table.get?_insert, if_neg hfirst]

/-- The table of a class holds the last method of each name. -/
theorem methodTable_of_lastOf {method : FunctionDecl}
    (h : LastOf (·.name.lexeme = name) methods method) :
    (methodTable place methods).get? name = some ⟨method, place, method.isInitializer⟩ := by
  obtain ⟨before, after, rfl, rfl, hafter⟩ := h
  rw [methodTable, List.foldl_append, List.foldl_cons, methodTable_of_not_mem hafter,
    Table.get?_insert, if_pos rfl]

end

/-- Among the classes that were declared, one offers a method under a name: the last one that it
declares itself, or else what the class that it extends offers. -/
inductive Offers (classes : List Declared) : ClassId → String → Closure → Prop where
  | own {id : ClassId} {name : String} {declared : Declared} {method : FunctionDecl} :
      classes[id]? = some declared → LastOf (·.name.lexeme = name) declared.methods method →
        Offers classes id name (declared.closure method)
  | inherited {id parent : ClassId} {name : String} {declared : Declared} {closure : Closure} :
      classes[id]? = some declared → (∀ method ∈ declared.methods, method.name.lexeme ≠ name) →
        declared.superclass = some parent → Offers classes parent name closure →
          Offers classes id name closure

section

variable {heap : Heap} {classes : List Declared}
  (hfounded : heap.Founded) (hclasses : heap.classes.toList = classes.map Declared.entry)

include hclasses in
theorem class_of_declared {id : ClassId} {declared : Declared}
    (h : classes[id]? = some declared) : heap.class_ id = declared.entry := by
  have hentry : heap.classes[id]? = some declared.entry := by
    rw [← Array.getElem?_toList, hclasses, List.getElem?_map, h]
    rfl
  rw [Heap.class_, hentry]
  rfl

include hclasses

theorem Offers.nearest {id : ClassId} {name : String} {closure : Closure}
    (h : Offers classes id name closure) : heap.Nearest id name closure := by
  induction h with
  | own hdeclared hlast =>
      refine .own ?_
      rw [class_of_declared hclasses hdeclared, Declared.entry, methodTable_of_lastOf hlast]
      rfl
  | inherited hdeclared hnone hparent _ ih =>
      have hclass := class_of_declared hclasses hdeclared
      refine .inherited ?_ ?_ ih
      · rw [hclass, Declared.entry, methodTable, methodTable_of_not_mem hnone, Table.get?_empty]
      · rw [Heap.parent?, hclass]
        exact hparent

/-- What is on the heap for a class is what was declared, if anything is. -/
theorem declared_of_class {id : ClassId} (h : heap.class_ id ≠ default) :
    ∃ declared, classes[id]? = some declared ∧ heap.class_ id = declared.entry := by
  cases hdeclared : classes[id]? with
  | none =>
      refine absurd ?_ h
      rw [Heap.class_, ← Array.getElem?_toList, hclasses, List.getElem?_map, hdeclared]
      rfl
  | some declared => exact ⟨declared, rfl, class_of_declared hclasses hdeclared⟩

theorem offers_of_nearest {id : ClassId} {name : String} {closure : Closure}
    (h : heap.Nearest id name closure) : Offers classes id name closure := by
  induction h with
  | @own id name closure hmethod =>
      have hsome : heap.class_ id ≠ default := by
        intro hdefault
        rw [hdefault] at hmethod
        cases hmethod
      obtain ⟨declared, hdeclared, hclass⟩ := declared_of_class hclasses hsome
      rw [hclass, Declared.entry] at hmethod
      obtain ⟨method, hlast⟩ | hnone := lastOf_or_none (·.name.lexeme = name) declared.methods
      · rw [methodTable_of_lastOf hlast] at hmethod
        cases hmethod
        exact .own hdeclared hlast
      · rw [methodTable, methodTable_of_not_mem hnone] at hmethod
        cases hmethod
  | @inherited id parent name closure hnone hparent _ ih =>
      have hsome : heap.class_ id ≠ default := by
        intro hdefault
        rw [Heap.parent?, hdefault] at hparent
        cases hparent
      obtain ⟨declared, hdeclared, hclass⟩ := declared_of_class hclasses hsome
      rw [Heap.parent?, hclass] at hparent
      rw [hclass, Declared.entry] at hnone
      obtain ⟨method, hlast⟩ | hother := lastOf_or_none (·.name.lexeme = name) declared.methods
      · rw [methodTable_of_lastOf hlast] at hnone
        cases hnone
      · exact .inherited hdeclared hother hparent ih

include hfounded

/-- A method is found if and only if the class offers it. -/
theorem findMethod?_iff_offers {id : ClassId} {name : String} {closure : Closure} :
    heap.findMethod? id name = some closure ↔ Offers classes id name closure :=
  hfounded.findMethod?_iff_nearest.trans ⟨offers_of_nearest hclasses, Offers.nearest hclasses⟩

end

/-! ## Properties -/

/-- What a property stands for after some events: the value that was last stored in the field, or
else the method that the class of the instance offers, or else nothing. -/
inductive PropertyIs (log : List Event) (receiver : InstanceId) (name : String) :
    Option Heap.Property → Prop where
  | field {value : Value} :
      Latest log receiver name value → PropertyIs log receiver name (some (.field value))
  | method {id : ClassId} {closure : Closure} :
      (∀ event ∈ log, ¬event.Stores receiver name) → (madeIn log)[receiver]? = some id →
        Offers (declaredIn log) id name closure →
          PropertyIs log receiver name (some (.method closure))
  | undefined {id : ClassId} :
      (∀ event ∈ log, ¬event.Stores receiver name) → (madeIn log)[receiver]? = some id →
        (∀ closure, ¬Offers (declaredIn log) id name closure) → PropertyIs log receiver name none

theorem propertyIs_of_plays {heap : Heap} {log : List Event} {receiver : InstanceId}
    (hplays : Plays ⟨#[], #[]⟩ log (objects heap)) (hfounded : heap.Founded)
    (hreceiver : receiver < heap.instances.size) (name : String) :
    PropertyIs log receiver name (heap.property? receiver name) := by
  have hclasses : heap.classes.toList = (declaredIn log).map Declared.entry := hplays.classes_eq
  have hentry : heap.instances[receiver]? = some (heap.instance_ receiver) := by
    simp [Heap.instance_, hreceiver]
  have hmade : (madeIn log)[receiver]? = some (heap.instance_ receiver).class_ := by
    have hall : heap.instances.toList.map Instance.class_ = madeIn log := hplays.made_eq
    rw [← hall, List.getElem?_map, Array.getElem?_toList, hentry]
    rfl
  have hfield : Plays.field? (objects heap) receiver name =
      (heap.instance_ receiver).fields.get? name := by
    rw [Plays.field?, objects, hentry]
    rfl
  obtain ⟨event, hlast⟩ | hnone := lastOf_or_none (Event.Stores receiver name) log
  · obtain ⟨value, rfl⟩ : event.Stores receiver name := by
      obtain ⟨-, -, -, hstores, -⟩ := hlast
      exact hstores
    have hvalue := hplays.field?_latest hlast
    rw [hfield] at hvalue
    simp only [Heap.property?, hvalue]
    exact .field hlast
  · have hempty : (heap.instance_ receiver).fields.get? name = none := by
      rw [← hfield, hplays.field?_eq hnone]
      rfl
    simp only [Heap.property?, hempty]
    cases hfound : heap.findMethod? (heap.instance_ receiver).class_ name with
    | some closure =>
        exact .method hnone hmade ((findMethod?_iff_offers hfounded hclasses).mp hfound)
    | none =>
        refine .undefined hnone hmade fun closure hoffers => ?_
        rw [(findMethod?_iff_offers hfounded hclasses).mpr hoffers] at hfound
        cases hfound

end Lox.Run
