import Lox.Heap.Class

/-!
# Heaps only grow

Whatever happens to a heap, its environments stay inside the same ones and keep the names that
they bind. A walk takes a number of steps outwards, each to an environment that does enclose the
one before.
-/

namespace Lox.Heap

variable {heap middle later : Heap}

/-! ## Environments after a change -/

theorem environment_of_size_le {id : EnvironmentId} (h : heap.environments.size ≤ id) :
    heap.environment id = default := by
  rw [environment, Array.getElem?_eq_none h]
  rfl

theorem environment_child (heap : Heap) (enclosing id : EnvironmentId) (region : Option Region) :
    (heap.child enclosing region).2.environment id =
      if id = heap.environments.size then ⟨.empty, some enclosing, region⟩
      else heap.environment id := by
  simp only [child, environment, Array.getElem?_push]
  split <;> rfl

theorem region_define (heap : Heap) (id place : EnvironmentId) (name : String) (value : Value) :
    ((heap.define id name value).environment place).region = (heap.environment place).region := by
  by_cases hplace : id = place
  · subst hplace
    cases h : heap.environments[id]? <;> simp [define, environment, Array.getElem?_modify, h]
  · simp [define, environment, hplace, Array.getElem?_modify]

@[simp] theorem size_define (heap : Heap) (id : EnvironmentId) (name : String) (value : Value) :
    (heap.define id name value).environments.size = heap.environments.size := by
  simp [define]

@[simp] theorem functions_define (heap : Heap) (id : EnvironmentId) (name : String)
    (value : Value) : (heap.define id name value).functions = heap.functions := rfl

@[simp] theorem classes_define (heap : Heap) (id : EnvironmentId) (name : String)
    (value : Value) : (heap.define id name value).classes = heap.classes := rfl

theorem size_child (heap : Heap) (enclosing : EnvironmentId) (region : Option Region) :
    (heap.child enclosing region).2.environments.size = heap.environments.size + 1 := by
  simp [child]

/-- Nothing is defined outside the heap. -/
theorem environment_define_of_size_le {id : EnvironmentId} (h : heap.environments.size ≤ id)
    (name : String) (value : Value) (place : EnvironmentId) :
    (heap.define id name value).environment place = heap.environment place := by
  have hnone : heap.environments[id]? = none := Array.getElem?_eq_none h
  by_cases hplace : id = place
  · subst hplace
    simp [define, environment, Array.getElem?_modify, hnone]
  · simp [define, environment, hplace, Array.getElem?_modify]

/-- What is defined in an environment is bound there. -/
theorem binding?_define_self {place : EnvironmentId} (h : place < heap.environments.size)
    (name : String) (value : Value) :
    (heap.define place name value).binding? place name = some value := by
  rw [binding?_define _ _ _ _ _ _ h, if_pos ⟨rfl, rfl⟩]

theorem binding?_define_isSome {id place : EnvironmentId} {name other : String} {value : Value}
    (h : (heap.binding? place other).isSome) :
    ((heap.define id name value).binding? place other).isSome := by
  by_cases hinside : id < heap.environments.size
  · rw [binding?_define heap id place name other value hinside]
    split
    · rfl
    · exact h
  · rw [binding?, environment_define_of_size_le (Nat.le_of_not_lt hinside)]
    exact h

/-! ## Growth -/

/-- The heap is `later` one after some changes: environments are where they were, inside the same
ones and for the same regions, and what was bound in them still is. -/
structure Grows (heap later : Heap) : Prop where
  size : heap.environments.size ≤ later.environments.size
  enclosing : ∀ id < heap.environments.size,
    (later.environment id).enclosing = (heap.environment id).enclosing
  region : ∀ id < heap.environments.size,
    (later.environment id).region = (heap.environment id).region
  bound : ∀ id name, (heap.binding? id name).isSome → (later.binding? id name).isSome

namespace Grows

theorem refl (heap : Heap) : heap.Grows heap :=
  ⟨Nat.le_refl _, fun _ _ => rfl, fun _ _ => rfl, fun _ _ h => h⟩

theorem trans (first : heap.Grows middle) (second : middle.Grows later) : heap.Grows later := by
  refine ⟨Nat.le_trans first.size second.size, ?_, ?_, ?_⟩
  · intro id hid
    rw [second.enclosing id (Nat.lt_of_lt_of_le hid first.size), first.enclosing id hid]
  · intro id hid
    rw [second.region id (Nat.lt_of_lt_of_le hid first.size), first.region id hid]
  · intro id name h
    exact second.bound id name (first.bound id name h)

/-- Only environments count. -/
theorem of_environments (h : later.environments = heap.environments) : heap.Grows later := by
  have hsame : ∀ id, later.environment id = heap.environment id := by
    intro id
    rw [environment, environment, h]
  refine ⟨Nat.le_of_eq (congrArg Array.size h).symm, ?_, ?_, ?_⟩
  · intro id _
    rw [hsame]
  · intro id _
    rw [hsame]
  · intro id name hbound
    rwa [binding?, hsame]

theorem define (heap : Heap) (id : EnvironmentId) (name : String) (value : Value) :
    heap.Grows (heap.define id name value) :=
  ⟨Nat.le_of_eq (size_define heap id name value).symm,
    fun place _ => enclosing_define heap id place name value,
    fun place _ => region_define heap id place name value,
    fun _ _ h => binding?_define_isSome h⟩

theorem child (heap : Heap) (enclosing : EnvironmentId) (region : Option Region) :
    heap.Grows (heap.child enclosing region).2 := by
  have hold : ∀ id < heap.environments.size,
      (heap.child enclosing region).2.environment id = heap.environment id := by
    intro id hid
    rw [environment_child, if_neg (Nat.ne_of_lt hid)]
  refine ⟨?_, ?_, ?_, ?_⟩
  · rw [size_child]
    exact Nat.le_succ _
  · intro id hid
    rw [hold id hid]
  · intro id hid
    rw [hold id hid]
  · intro id name hbound
    by_cases hid : id < heap.environments.size
    · rwa [binding?, hold id hid]
    · rw [binding?, environment_of_size_le (Nat.le_of_not_lt hid)] at hbound
      cases hbound

end Grows

/-! ## Methods depend on classes only -/

theorem lineageFrom_of_classes (h : later.classes = heap.classes) (fuel : Nat) (id : ClassId) :
    later.lineageFrom fuel id = heap.lineageFrom fuel id := by
  induction fuel generalizing id with
  | zero => rfl
  | succ fuel ih =>
      have hclass : later.class_ id = heap.class_ id := by rw [class_, class_, h]
      simp only [lineageFrom, hclass, ih]

theorem findMethod?_of_classes (h : later.classes = heap.classes) (id : ClassId) (name : String) :
    later.findMethod? id name = heap.findMethod? id name := by
  have hclass : ∀ place, later.class_ place = heap.class_ place := by
    intro place
    rw [class_, class_, h]
  simp only [findMethod?, lineage, h, lineageFrom_of_classes h, hclass]

/-! ## Walks -/

/-- From an environment, so many steps outwards lead to the environment `target`. -/
def Walk (heap : Heap) : (steps : Nat) → EnvironmentId → (target : EnvironmentId) → Prop
  | 0, id, target => id = target
  | steps + 1, id, target =>
      ∃ outer, (heap.environment id).enclosing = some outer ∧ Walk heap steps outer target

theorem Walk.ancestor_eq {steps : Nat} {id target : EnvironmentId}
    (h : heap.Walk steps id target) : heap.ancestor id steps = target := by
  induction steps generalizing id with
  | zero => exact h
  | succ steps ih =>
      obtain ⟨outer, houter, hrest⟩ := h
      simp only [ancestor, houter]
      exact ih hrest

/-- An environment that is inside another one is on the heap. -/
theorem lt_size_of_enclosing {id outer : EnvironmentId}
    (h : (heap.environment id).enclosing = some outer) : id < heap.environments.size := by
  apply Nat.lt_of_not_le
  intro hle
  rw [environment_of_size_le hle] at h
  cases h

/-- An environment that was made for a region is on the heap. -/
theorem lt_size_of_region {id : EnvironmentId} {region : Region}
    (h : (heap.environment id).region = some region) : id < heap.environments.size := by
  apply Nat.lt_of_not_le
  intro hle
  rw [environment_of_size_le hle] at h
  cases h

theorem Walk.grows {steps : Nat} {id target : EnvironmentId} (h : heap.Walk steps id target)
    (hgrows : heap.Grows later) : later.Walk steps id target := by
  induction steps generalizing id with
  | zero => exact h
  | succ steps ih =>
      obtain ⟨outer, houter, hrest⟩ := h
      refine ⟨outer, ?_, ih hrest⟩
      rw [hgrows.enclosing id (lt_size_of_enclosing houter), houter]

end Lox.Heap
