import Lox.Proofs.Heap.Reach

/-!
# What lasts on a heap

Functions and classes never change once they were made, and an instance keeps its class.
-/

namespace Lox.Heap

variable {rules : Rules} {heap middle later : Heap}

/-- The functions and classes of a heap are as they were on a later one, and its instances have the
classes that they had. -/
structure Lasts (heap later : Heap) : Prop where
  functions_le : heap.functions.size ≤ later.functions.size
  classes_le : heap.classes.size ≤ later.classes.size
  instances_le : heap.instances.size ≤ later.instances.size
  closure : ∀ id < heap.functions.size, later.closure id = heap.closure id
  class_ : ∀ id < heap.classes.size, later.class_ id = heap.class_ id
  classOf : ∀ id < heap.instances.size,
    (later.instance_ id).class_ = (heap.instance_ id).class_

namespace Lasts

theorem refl (heap : Heap) : heap.Lasts heap :=
  ⟨Nat.le_refl _, Nat.le_refl _, Nat.le_refl _, fun _ _ => rfl, fun _ _ => rfl, fun _ _ => rfl⟩

theorem trans (first : heap.Lasts middle) (second : middle.Lasts later) : heap.Lasts later where
  functions_le := Nat.le_trans first.functions_le second.functions_le
  classes_le := Nat.le_trans first.classes_le second.classes_le
  instances_le := Nat.le_trans first.instances_le second.instances_le
  closure id hid := (second.closure id (Nat.lt_of_lt_of_le hid first.functions_le)).trans
    (first.closure id hid)
  class_ id hid := (second.class_ id (Nat.lt_of_lt_of_le hid first.classes_le)).trans
    (first.class_ id hid)
  classOf id hid := (second.classOf id (Nat.lt_of_lt_of_le hid first.instances_le)).trans
    (first.classOf id hid)

/-- Environments do not count. -/
theorem of_eq (hfunctions : later.functions = heap.functions)
    (hclasses : later.classes = heap.classes) (hinstances : later.instances = heap.instances) :
    heap.Lasts later where
  functions_le := Nat.le_of_eq (congrArg Array.size hfunctions).symm
  classes_le := Nat.le_of_eq (congrArg Array.size hclasses).symm
  instances_le := Nat.le_of_eq (congrArg Array.size hinstances).symm
  closure id _ := by rw [Heap.closure, Heap.closure, hfunctions]
  class_ id _ := by rw [Heap.class_, Heap.class_, hclasses]
  classOf id _ := by rw [instance_, instance_, hinstances]

theorem addFunction (heap : Heap) (closure : Closure) :
    heap.Lasts (heap.addFunction closure).2 where
  functions_le := by simp [Heap.addFunction]
  classes_le := Nat.le_refl _
  instances_le := Nat.le_refl _
  closure id hid := by rw [closure_addFunction, if_neg (Nat.ne_of_lt hid)]
  class_ _ _ := rfl
  classOf _ _ := rfl

theorem addClass (heap : Heap) (entry : Class) : heap.Lasts (heap.addClass entry).2 where
  functions_le := Nat.le_refl _
  classes_le := by simp [Heap.addClass]
  instances_le := Nat.le_refl _
  closure _ _ := rfl
  class_ id hid := by rw [class_addClass, if_neg (Nat.ne_of_lt hid)]
  classOf _ _ := rfl

theorem addInstance (heap : Heap) (id : ClassId) : heap.Lasts (heap.addInstance id).2 where
  functions_le := Nat.le_refl _
  classes_le := Nat.le_refl _
  instances_le := by simp [Heap.addInstance]
  closure _ _ := rfl
  class_ _ _ := rfl
  classOf place hplace := by rw [instance_addInstance, if_neg (Nat.ne_of_lt hplace)]

theorem setField (heap : Heap) (receiver : InstanceId) (name : String) (value : Value) :
    heap.Lasts (heap.setField receiver name value) where
  functions_le := Nat.le_refl _
  classes_le := Nat.le_refl _
  instances_le := by simp [Heap.setField]
  closure _ _ := rfl
  class_ _ _ := rfl
  classOf place _ := class_setField heap receiver place name value

end Lasts

theorem Change.lasts (h : Change rules heap later) : heap.Lasts later := by
  cases h with
  | define place value _ => exact .of_eq rfl rfl rfl
  | enter outer _ => exact .of_eq rfl rfl rfl
  | receive method receiver => exact .of_eq rfl rfl rfl
  | inherit outer _ => exact .of_eq rfl rfl rfl
  | addFunction _ => exact .addFunction heap _
  | addClass _ => exact .addClass heap _
  | addInstance id => exact .addInstance heap id
  | setField receiver name value => exact .setField heap receiver name value

theorem Changes.lasts (h : Changes rules heap later) : heap.Lasts later := by
  induction h with
  | refl => exact .refl heap
  | tail _ hchange ih => exact ih.trans hchange.lasts

end Lox.Heap
