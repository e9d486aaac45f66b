import Lox.Proofs.Heap.Change

/-!
# Environments of `this` and `super`

An environment that was made for `this` or for `super` binds it from the beginning, and no change
that keeps to the rules of a program binds it anew.
-/

namespace Lox.Heap

variable {rules : Rules} {heap later : Heap} {place : EnvironmentId} {word : String}

/-! ## Words that a program cannot bind -/

theorem binding?_define_ne (heap : Heap) (id place : EnvironmentId) {name other : String}
    (value : Value) (hname : name ≠ other) :
    (heap.define id name value).binding? place other = heap.binding? place other := by
  by_cases hinside : id < heap.environments.size
  · rw [binding?_define _ _ _ _ _ _ hinside, if_neg fun h => hname h.2]
  · have hnone : heap.environments[id]? = none := Array.getElem?_eq_none (Nat.le_of_not_lt hinside)
    have heq : (heap.define id name value).environment place = heap.environment place := by
      by_cases hplace : id = place
      · subst hplace
        simp [define, environment, Array.getElem?_modify, hnone]
      · simp [define, environment, hplace, Array.getElem?_modify]
    rw [binding?, heq]
    rfl

theorem binding?_child (heap : Heap) (outer : EnvironmentId) (region : Option Region)
    (hplace : place < heap.environments.size) (name : String) :
    (heap.child outer region).2.binding? place name = heap.binding? place name := by
  rw [binding?, environment_child, if_neg (Nat.ne_of_lt hplace)]
  rfl

/-- A binding in an environment that has just been made. -/
theorem binding?_child_define (heap : Heap) (outer : EnvironmentId) (region : Option Region)
    (name : String) (value : Value) (hplace : place ≤ heap.environments.size) (other : String) :
    ((heap.child outer region).2.define (heap.child outer region).1 name value).binding? place other =
      if place = heap.environments.size then if name = other then some value else none
      else heap.binding? place other := by
  have hinside : (heap.child outer region).1 < (heap.child outer region).2.environments.size := by
    rw [size_child]
    exact Nat.lt_succ_self _
  rw [binding?_define _ _ _ _ _ _ hinside]
  change (if heap.environments.size = place ∧ name = other then some value
    else (heap.child outer region).2.binding? place other) = _
  by_cases hnew : place = heap.environments.size
  · rw [if_pos hnew, hnew]
    by_cases hname : name = other
    · rw [if_pos ⟨rfl, hname⟩, if_pos hname]
    · rw [if_neg fun h => hname h.2, if_neg hname, binding?, environment_child, if_pos rfl]
      rfl
  · rw [if_neg fun h => hnew h.1.symm, if_neg hnew,
      binding?_child heap outer region (Nat.lt_of_le_of_ne hplace hnew)]

/-- An environment keeps its binding of a word that the program cannot bind, or has none. -/
theorem Change.binding?_eq (h : Change rules heap later) (hword : ¬rules.name word)
    (hplace : place < heap.environments.size) :
    later.binding? place word = heap.binding? place word := by
  cases h with
  | define id value hname =>
      exact binding?_define_ne heap id place value fun heq => hword (heq ▸ hname)
  | enter outer _ => exact binding?_child heap outer _ hplace word
  | receive method receiver =>
      rw [bindThis, binding?_child_define _ _ _ _ _ (Nat.le_of_lt hplace),
        if_neg (Nat.ne_of_lt hplace)]
  | inherit outer _ =>
      rw [Heap.inherit, binding?_child_define _ _ _ _ _ (Nat.le_of_lt hplace),
        if_neg (Nat.ne_of_lt hplace)]
  | addFunction _ => rfl
  | addClass _ => rfl
  | addInstance _ => rfl
  | setField _ _ _ => rfl

theorem Changes.binding?_eq (h : Changes rules heap later) (hword : ¬rules.name word)
    (hplace : place < heap.environments.size) :
    later.binding? place word = heap.binding? place word := by
  induction h with
  | refl => rfl
  | tail hbefore hchange ih =>
      have hplace' := Nat.lt_of_lt_of_le hplace (Changes.grows hbefore).size
      rw [hchange.binding?_eq hword hplace', ih]

/-! ## What the environments bind -/

/-- What an environment that was made for a region binds from the beginning: `this` to an instance
for a method, and `super` to a class that was recorded for the methods of a class. -/
def Equipped (recorded : EnvironmentId → List FunctionDecl → ClassId → Prop) (heap : Heap)
    (place : EnvironmentId) : Region → Prop
  | .block _ | .function _ => True
  | .receiver _ => ∃ receiver, heap.binding? place "this" = some (.instance_ receiver)
  | .superclass methods =>
      ∃ id, heap.binding? place "super" = some (.class_ id) ∧ recorded place methods id

/-- Every environment binds what its region asks for. -/
def Lexical (recorded : EnvironmentId → List FunctionDecl → ClassId → Prop) (heap : Heap) : Prop :=
  ∀ place region, (heap.environment place).region = some region →
    heap.Equipped recorded place region

variable {recorded : EnvironmentId → List FunctionDecl → ClassId → Prop} {region : Region}

/-- What an environment binds from the beginning is kept. -/
theorem Equipped.congr (h : heap.Equipped recorded place region)
    (hthis : later.binding? place "this" = heap.binding? place "this")
    (hsuper : later.binding? place "super" = heap.binding? place "super") :
    later.Equipped recorded place region := by
  cases region with
  | block body => exact True.intro
  | function declaration => exact True.intro
  | receiver method =>
      obtain ⟨receiver, hreceiver⟩ := h
      exact ⟨receiver, hthis.trans hreceiver⟩
  | superclass methods =>
      obtain ⟨id, hid, hrecorded⟩ := h
      exact ⟨id, hsuper.trans hid, hrecorded⟩

theorem Equipped.mono {wider : EnvironmentId → List FunctionDecl → ClassId → Prop}
    (h : heap.Equipped recorded place region)
    (hwider : ∀ place methods id, recorded place methods id → wider place methods id) :
    heap.Equipped wider place region := by
  cases region with
  | block body => exact True.intro
  | function declaration => exact True.intro
  | receiver method => exact h
  | superclass methods =>
      obtain ⟨id, hid, hrecorded⟩ := h
      exact ⟨id, hid, hwider _ _ _ hrecorded⟩

theorem Lexical.mono {wider : EnvironmentId → List FunctionDecl → ClassId → Prop}
    (h : heap.Lexical recorded)
    (hwider : ∀ place methods id, recorded place methods id → wider place methods id) :
    heap.Lexical wider :=
  fun place region hregion => (h place region hregion).mono hwider

/-- An environment that a change makes binds what its region asks for. -/
theorem Change.equipped_new (h : Change rules heap later)
    (hplace : heap.environments.size ≤ place)
    (hregion : (later.environment place).region = some region) :
    later.Equipped rules.superclass place region := by
  have hbelow := lt_size_of_region hregion
  cases h with
  | define id value _ =>
      rw [size_define] at hbelow
      exact absurd hbelow (Nat.not_lt_of_le hplace)
  | @enter outer made hopens =>
      rw [size_child] at hbelow
      have heq : place = heap.environments.size :=
        Nat.le_antisymm (Nat.le_of_lt_succ hbelow) hplace
      subst heq
      rw [environment_child, if_pos rfl] at hregion
      cases hregion
      cases hopens <;> exact True.intro
  | receive method receiver =>
      rw [bindThis, size_define, size_child] at hbelow
      have heq : place = heap.environments.size :=
        Nat.le_antisymm (Nat.le_of_lt_succ hbelow) hplace
      subst heq
      rw [bindThis, region_define, environment_child, if_pos rfl] at hregion
      cases hregion
      refine ⟨receiver, ?_⟩
      rw [bindThis, binding?_child_define _ _ _ _ _ (Nat.le_refl _), if_pos rfl, if_pos rfl]
  | @inherit outer methods id hrecorded =>
      rw [Heap.inherit, size_define, size_child] at hbelow
      have heq : place = heap.environments.size :=
        Nat.le_antisymm (Nat.le_of_lt_succ hbelow) hplace
      subst heq
      rw [Heap.inherit, region_define, environment_child, if_pos rfl] at hregion
      cases hregion
      refine ⟨id, ?_, hrecorded⟩
      rw [Heap.inherit, binding?_child_define _ _ _ _ _ (Nat.le_refl _), if_pos rfl, if_pos rfl]
  | addFunction _ => exact absurd hbelow (Nat.not_lt_of_le hplace)
  | addClass _ => exact absurd hbelow (Nat.not_lt_of_le hplace)
  | addInstance _ => exact absurd hbelow (Nat.not_lt_of_le hplace)
  | setField _ _ _ => exact absurd hbelow (Nat.not_lt_of_le hplace)

theorem Lexical.change (h : heap.Lexical rules.superclass) (hthis : ¬rules.name "this")
    (hsuper : ¬rules.name "super") (hchange : Change rules heap later) :
    later.Lexical rules.superclass := by
  intro place region hregion
  by_cases hplace : place < heap.environments.size
  · rw [hchange.grows.region place hplace] at hregion
    exact (h place region hregion).congr (hchange.binding?_eq hthis hplace)
      (hchange.binding?_eq hsuper hplace)
  · exact hchange.equipped_new (Nat.le_of_not_lt hplace) hregion

theorem Lexical.changes (h : heap.Lexical rules.superclass) (hthis : ¬rules.name "this")
    (hsuper : ¬rules.name "super") (hchanges : Changes rules heap later) :
    later.Lexical rules.superclass := by
  induction hchanges with
  | refl => exact h
  | tail _ hchange ih => exact ih.change hthis hsuper hchange

/-- The first heap has the globals only. -/
theorem lexical_fresh : Heap.fresh.Lexical recorded := by
  intro place region hregion
  rw [fresh, region_define] at hregion
  have hbelow := lt_size_of_region hregion
  obtain rfl : place = 0 := by simpa [root] using hbelow
  cases hregion

end Lox.Heap
