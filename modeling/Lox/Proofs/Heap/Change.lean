import Lox.Proofs.Heap.Growth
import Mathlib.Logic.Relation

/-!
# The changes of a heap

A program changes its heap in a few ways only: it binds a name, makes an environment, a function, a
class or an instance, or stores a field. Rules say which names it may bind, which functions it may
make, and which class an environment may have under `super`. What the rules allow of one change
holds of any number of them.
-/

namespace Lox.Heap

variable {heap middle later : Heap}

/-! ## Rules -/

/-- What the changes of a heap keep to. -/
structure Rules where
  name : String → Prop
  declaration : FunctionDecl → Prop
  superclass : EnvironmentId → List FunctionDecl → ClassId → Prop

/-- Regions whose environments begin without bindings. -/
inductive Opens : Region → Prop where
  | block (body : List Stmt) : Opens (.block body)
  | function (declaration : FunctionDecl) : Opens (.function declaration)

/-- The heap with a new environment that binds `super` for the methods of a class. -/
def inherit (heap : Heap) (outer : EnvironmentId) (methods : List FunctionDecl) (id : ClassId) :
    Heap :=
  (heap.child outer (some (.superclass methods))).2.define
    (heap.child outer (some (.superclass methods))).1 "super" (.class_ id)

/-- One change of a heap that keeps to the rules. -/
inductive Change (rules : Rules) (heap : Heap) : Heap → Prop where
  | define (place : EnvironmentId) {name : String} (value : Value) :
      rules.name name → Change rules heap (heap.define place name value)
  | enter (outer : EnvironmentId) {region : Region} :
      Opens region → Change rules heap (heap.child outer (some region)).2
  | receive (method : Closure) (receiver : InstanceId) :
      Change rules heap (heap.bindThis method receiver).2
  | inherit (outer : EnvironmentId) {methods : List FunctionDecl} {id : ClassId} :
      rules.superclass heap.environments.size methods id →
        Change rules heap (heap.inherit outer methods id)
  | addFunction {closure : Closure} :
      rules.declaration closure.declaration → Change rules heap (heap.addFunction closure).2
  | addClass {entry : Class} :
      (∀ name method, entry.methods.get? name = some method →
        rules.declaration method.declaration) → Change rules heap (heap.addClass entry).2
  | addInstance (id : ClassId) : Change rules heap (heap.addInstance id).2
  | setField (receiver : InstanceId) (name : String) (value : Value) :
      Change rules heap (heap.setField receiver name value)

/-- Any number of changes that keep to the rules. -/
def Changes (rules : Rules) : Heap → Heap → Prop :=
  Relation.ReflTransGen (Change rules)

variable {rules : Rules}

theorem Changes.refl (heap : Heap) : Changes rules heap heap :=
  Relation.ReflTransGen.refl

theorem Changes.trans (first : Changes rules heap middle) (second : Changes rules middle later) :
    Changes rules heap later :=
  Relation.ReflTransGen.trans first second

theorem Change.changes (h : Change rules heap later) : Changes rules heap later :=
  Relation.ReflTransGen.single h

/-- A bound method that becomes a value takes two changes. -/
theorem Changes.boundMethod {method : Closure} (hmethod : rules.declaration method.declaration)
    (receiver : InstanceId) : Changes rules heap (heap.boundMethod method receiver).2 := by
  have hbound : Change rules heap (heap.bindThis method receiver).2 := .receive method receiver
  have hadded : Change rules (heap.bindThis method receiver).2
      ((heap.bindThis method receiver).2.addFunction (heap.bindThis method receiver).1).2 :=
    .addFunction hmethod
  exact hbound.changes.trans hadded.changes

/-! ## Heaps grow -/

theorem Grows.bindThis (heap : Heap) (method : Closure) (receiver : InstanceId) :
    heap.Grows (heap.bindThis method receiver).2 :=
  (Grows.child heap _ _).trans (Grows.define _ _ _ _)

theorem Grows.inherit (heap : Heap) (outer : EnvironmentId) (methods : List FunctionDecl)
    (id : ClassId) : heap.Grows (heap.inherit outer methods id) :=
  (Grows.child heap _ _).trans (Grows.define _ _ _ _)

theorem Change.grows (h : Change rules heap later) : heap.Grows later := by
  cases h with
  | define place value _ => exact .define heap _ _ _
  | enter outer _ => exact .child heap _ _
  | receive method receiver => exact .bindThis heap method receiver
  | inherit outer _ => exact .inherit heap _ _ _
  | addFunction _ => exact .of_environments rfl
  | addClass _ => exact .of_environments rfl
  | addInstance _ => exact .of_environments rfl
  | setField _ _ _ => exact .of_environments rfl

theorem Changes.grows (h : Changes rules heap later) : heap.Grows later := by
  induction h with
  | refl => exact .refl heap
  | tail _ hchange ih => exact ih.trans hchange.grows

/-! ## Functions and classes -/

theorem closure_addFunction (heap : Heap) (closure : Closure) (id : FunctionId) :
    (heap.addFunction closure).2.closure id =
      if id = heap.functions.size then closure else heap.closure id := by
  simp only [addFunction, Heap.closure, Array.getElem?_push]
  split <;> rfl

theorem class_addClass (heap : Heap) (entry : Class) (id : ClassId) :
    (heap.addClass entry).2.class_ id =
      if id = heap.classes.size then entry else heap.class_ id := by
  simp only [addClass, Heap.class_, Array.getElem?_push]
  split <;> rfl

/-- All functions and methods are of declarations that the rules allow. -/
structure Sound (rules : Rules) (heap : Heap) : Prop where
  functions : ∀ id, rules.declaration (heap.closure id).declaration
  methods : ∀ id name method, (heap.class_ id).methods.get? name = some method →
    rules.declaration method.declaration

namespace Sound

/-- Only functions and classes count. -/
theorem congr (h : heap.Sound rules) (hfunctions : later.functions = heap.functions)
    (hclasses : later.classes = heap.classes) : later.Sound rules := by
  refine ⟨fun id => ?_, fun id name method hmethod => ?_⟩
  · rw [Heap.closure, hfunctions]
    exact h.functions id
  · rw [Heap.class_, hclasses] at hmethod
    exact h.methods id name method hmethod

theorem change (h : heap.Sound rules) (hchange : Change rules heap later) : later.Sound rules := by
  cases hchange with
  | define place value _ => exact h.congr rfl rfl
  | enter outer _ => exact h.congr rfl rfl
  | receive method receiver => exact h.congr rfl rfl
  | inherit outer _ => exact h.congr rfl rfl
  | addFunction hclosure =>
      refine ⟨fun id => ?_, fun id name method hmethod => h.methods id name method hmethod⟩
      rw [closure_addFunction]
      split
      · exact hclosure
      · exact h.functions id
  | addClass hentry =>
      refine ⟨fun id => h.functions id, fun id name method hmethod => ?_⟩
      rw [class_addClass] at hmethod
      split at hmethod
      · exact hentry name method hmethod
      · exact h.methods id name method hmethod
  | addInstance id => exact h.congr rfl rfl
  | setField receiver name value => exact h.congr rfl rfl

theorem changes (h : heap.Sound rules) (hchanges : Changes rules heap later) :
    later.Sound rules := by
  induction hchanges with
  | refl => exact h
  | tail _ hchange ih => exact ih.change hchange

theorem findMethod? (h : heap.Sound rules) {id : ClassId} {name : String} {method : Closure}
    (hmethod : heap.findMethod? id name = some method) :
    rules.declaration method.declaration := by
  obtain ⟨place, _, hplace⟩ := List.exists_of_findSome?_eq_some hmethod
  exact h.methods place name method hplace

theorem property? (h : heap.Sound rules) {receiver : InstanceId} {name : String}
    {method : Closure} (hproperty : heap.property? receiver name = some (.method method)) :
    rules.declaration method.declaration := by
  rw [Heap.property?] at hproperty
  cases hfield : (heap.instance_ receiver).fields.get? name with
  | some value => simp [hfield] at hproperty
  | none =>
      simp only [hfield, Option.map_eq_some_iff, Property.method.injEq] at hproperty
      obtain ⟨found, hfound, rfl⟩ := hproperty
      exact h.findMethod? hfound

theorem callable? (h : heap.Sound rules) {value : Value} {closure : Closure}
    (hcallable : heap.callable? value = some (.closure closure)) :
    rules.declaration closure.declaration := by
  cases value with
  | function id =>
      cases hcallable
      exact h.functions id
  | _ => cases hcallable

/-- The first heap has no functions or classes. -/
theorem fresh (h : rules.declaration default) : Heap.fresh.Sound rules :=
  ⟨fun _ => h, fun _ _ _ hmethod => by cases hmethod⟩

end Sound

end Lox.Heap
