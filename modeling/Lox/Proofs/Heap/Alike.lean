import Lox.Proofs.Heap.Change
import Lox.Run.Statement
import Mathlib.Data.List.Forall2
import Mathlib.Data.Option.Defs

/-!
# Heaps that differ in functions and methods

Two heaps have the same instances, the same classes but for methods, and in the same places functions
and methods that are related somehow. What is looked up in classes and instances is then found in
both, and what is added to both keeps them so. Whatever the relations are, environments play no part.
-/

namespace Lox

/-- Related options stay so under a weaker relation. -/
theorem rel_mono {α β : Type} {r s : α → β → Prop} {a : Option α} {b : Option β}
    (h : Option.Rel r a b) (hweaker : ∀ x y, r x y → s x y) : Option.Rel s a b := by
  cases h with
  | none => exact .none
  | some hrelated => exact .some (hweaker _ _ hrelated)

/-- Classes of one name and with one superclass, whose methods are related. -/
structure Class.Alike (method : Closure → Closure → Prop) (entry entry' : Class) : Prop where
  name : entry'.name = entry.name
  superclass : entry'.superclass = entry.superclass
  methods : ∀ name, Option.Rel method (entry.methods.get? name) (entry'.methods.get? name)

/-- Heaps with the same instances and the same classes but for methods. Functions and methods are
related. -/
structure Heap.Alike (function method : Closure → Closure → Prop) (heap other : Heap) : Prop where
  functionCount : other.functions.size = heap.functions.size
  function : ∀ id, function (heap.closure id) (other.closure id)
  classCount : other.classes.size = heap.classes.size
  class_ : ∀ id, (heap.class_ id).Alike method (other.class_ id)
  instances : other.instances = heap.instances

namespace Heap.Alike

variable {function function' method method' : Closure → Closure → Prop}
  {heap heap' other other' : Heap}

theorem mono (h : heap.Alike function method other)
    (hfunction : ∀ closure closure', function closure closure' → function' closure closure')
    (hmethod : ∀ closure closure', method closure closure' → method' closure closure') :
    heap.Alike function' method' other where
  functionCount := h.functionCount
  function id := hfunction _ _ (h.function id)
  classCount := h.classCount
  class_ id := ⟨(h.class_ id).name, (h.class_ id).superclass, fun name =>
    rel_mono ((h.class_ id).methods name) hmethod⟩
  instances := h.instances

/-! ## Changes of both heaps -/

/-- Only functions, classes and instances count. -/
theorem congr (h : heap.Alike function method other)
    (hsame : heap'.functions = heap.functions ∧ heap'.classes = heap.classes ∧
      heap'.instances = heap.instances)
    (hsame' : other'.functions = other.functions ∧ other'.classes = other.classes ∧
      other'.instances = other.instances) : heap'.Alike function method other' := by
  obtain ⟨hfunctions, hclasses, hinstances⟩ := hsame
  obtain ⟨hfunctions', hclasses', hinstances'⟩ := hsame'
  refine ⟨?_, fun id => ?_, ?_, fun id => ?_, ?_⟩
  · rw [hfunctions, hfunctions', h.functionCount]
  · rw [closure, closure, hfunctions, hfunctions']
    exact h.function id
  · rw [hclasses, hclasses', h.classCount]
  · rw [Heap.class_, Heap.class_, hclasses, hclasses']
    exact h.class_ id
  · rw [hinstances, hinstances', h.instances]

theorem addFunction (h : heap.Alike function method other) {closure closure' : Closure}
    (hclosure : function closure closure') :
    (heap.addFunction closure).2.Alike function method (other.addFunction closure').2 := by
  refine ⟨?_, fun id => ?_, h.classCount, h.class_, h.instances⟩
  · simp [Heap.addFunction, h.functionCount]
  · rw [closure_addFunction, closure_addFunction, h.functionCount]
    split
    · exact hclosure
    · exact h.function id

theorem addClass (h : heap.Alike function method other) {entry entry' : Class}
    (hentry : entry.Alike method entry') :
    (heap.addClass entry).2.Alike function method (other.addClass entry').2 := by
  refine ⟨h.functionCount, h.function, ?_, fun id => ?_, h.instances⟩
  · simp [Heap.addClass, h.classCount]
  · rw [class_addClass, class_addClass, h.classCount]
    split
    · exact hentry
    · exact h.class_ id

theorem addInstance (h : heap.Alike function method other) (id : ClassId) :
    (heap.addInstance id).2.Alike function method (other.addInstance id).2 :=
  ⟨h.functionCount, h.function, h.classCount, h.class_, congrArg (·.push ⟨id, .empty⟩) h.instances⟩

theorem setField (h : heap.Alike function method other) (receiver : InstanceId) (name : String)
    (value : Value) :
    (heap.setField receiver name value).Alike function method
      (other.setField receiver name value) := by
  refine ⟨h.functionCount, h.function, h.classCount, h.class_, ?_⟩
  rw [Heap.setField, Heap.setField, h.instances]

/-! ## Lookups in both heaps -/

theorem instance_eq (h : heap.Alike function method other) (id : InstanceId) :
    other.instance_ id = heap.instance_ id := by
  rw [instance_, instance_, h.instances]

theorem lineageFrom (h : heap.Alike function method other) (fuel : Nat) (id : ClassId) :
    other.lineageFrom fuel id = heap.lineageFrom fuel id := by
  induction fuel generalizing id with
  | zero => rfl
  | succ fuel ih =>
      simp only [Heap.lineageFrom, (h.class_ id).superclass]
      cases (heap.class_ id).superclass with
      | none => rfl
      | some parent => simp only [ih]

theorem findMethod? (h : heap.Alike function method other) (id : ClassId) (name : String) :
    Option.Rel method (heap.findMethod? id name) (other.findMethod? id name) := by
  rw [Heap.findMethod?, Heap.findMethod?, lineage, lineage, h.classCount, h.lineageFrom]
  induction heap.lineageFrom heap.classes.size id with
  | nil => exact .none
  | cons place rest ih =>
      have hmethods := (h.class_ place).methods name
      simp only [List.findSome?_cons]
      generalize (heap.class_ place).methods.get? name = found at hmethods ⊢
      generalize (other.class_ place).methods.get? name = found' at hmethods ⊢
      cases hmethods with
      | none => exact ih
      | some hmethod => exact .some hmethod

/-- A property is an equal field or a related method in both heaps. -/
theorem property? {property : Property → Property → Prop} (h : heap.Alike function method other)
    (hfield : ∀ value, property (.field value) (.field value))
    (hmethod : ∀ {closure closure'}, method closure closure' →
      property (.method closure) (.method closure'))
    (receiver : InstanceId) (name : String) :
    Option.Rel property (heap.property? receiver name) (other.property? receiver name) := by
  simp only [Heap.property?, h.instance_eq]
  cases (heap.instance_ receiver).fields.get? name with
  | some value => exact .some (hfield value)
  | none =>
      have hfound := h.findMethod? (heap.instance_ receiver).class_ name
      generalize heap.findMethod? (heap.instance_ receiver).class_ name = found at hfound ⊢
      generalize other.findMethod? (heap.instance_ receiver).class_ name = found' at hfound ⊢
      cases hfound with
      | none => exact .none
      | some hfound => exact .some (hmethod hfound)

/-- A value can be called in both heaps or in none of them. -/
theorem callable? {callable : Callable → Callable → Prop} (h : heap.Alike function method other)
    (hnative : ∀ native, callable (.native native) (.native native))
    (hclosure : ∀ {closure closure'}, function closure closure' →
      callable (.closure closure) (.closure closure'))
    (hclass : ∀ id, callable (.class_ id) (.class_ id)) (value : Value) :
    Option.Rel callable (heap.callable? value) (other.callable? value) := by
  cases value with
  | native native => exact .some (hnative native)
  | function id => exact .some (hclosure (h.function id))
  | class_ id => exact .some (hclass id)
  | _ => exact .none

/-- A class needs as many arguments in both heaps, if related methods do. -/
theorem arity_class (h : heap.Alike function method other)
    (harity : ∀ closure closure', method closure closure' → closure'.arity = closure.arity)
    (id : ClassId) : other.arity (.class_ id) = heap.arity (.class_ id) := by
  have hfound := h.findMethod? id "init"
  simp only [Heap.arity, Heap.initializer?]
  generalize heap.findMethod? id "init" = found at hfound ⊢
  generalize other.findMethod? id "init" = found' at hfound ⊢
  cases hfound with
  | none => rfl
  | some hmethod => exact harity _ _ hmethod

/-- A value has one text in both heaps, if related functions have one name. -/
theorem text (h : heap.Alike function method other)
    (hname : ∀ closure closure', function closure closure' →
      closure'.declaration.name.lexeme = closure.declaration.name.lexeme) (value : Value) :
    other.text value = heap.text value := by
  cases value with
  | function id => simp only [Heap.text, hname _ _ (h.function id)]
  | class_ id => exact (h.class_ id).name
  | instance_ id => simp only [Heap.text, h.instance_eq, (h.class_ _).name]
  | bool value => cases value <;> rfl
  | _ => rfl

end Heap.Alike

/-! ## Tables of methods -/

/-- Declarations of the same names one by one, which make related methods, make tables of such. -/
theorem Run.methodTable_rel {method : Closure → Closure → Prop} {place place' : EnvironmentId}
    {methods methods' : List FunctionDecl}
    (h : List.Forall₂ (fun first first' => first'.name.lexeme = first.name.lexeme ∧
      method ⟨first, place, first.isInitializer⟩ ⟨first', place', first'.isInitializer⟩)
      methods methods') (name : String) :
    Option.Rel method ((methodTable place methods).get? name)
      ((methodTable place' methods').get? name) := by
  have hfold : ∀ table table' : Table Closure,
      (∀ name, Option.Rel method (table.get? name) (table'.get? name)) →
      ∀ name, Option.Rel method
        ((methods.foldl (fun table method =>
          table.insert method.name.lexeme ⟨method, place, method.isInitializer⟩) table).get? name)
        ((methods'.foldl (fun table method =>
          table.insert method.name.lexeme ⟨method, place', method.isInitializer⟩) table').get?
            name) := by
    induction h with
    | nil => exact fun _ _ htables => htables
    | cons hfirst _ ih =>
        intro table table' htables
        refine ih _ _ fun name => ?_
        rw [Table.get?_insert, Table.get?_insert, hfirst.1]
        split
        · exact .some hfirst.2
        · exact htables name
  exact hfold .empty .empty (fun _ => .none) name

end Lox
