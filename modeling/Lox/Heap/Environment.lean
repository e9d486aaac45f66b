import Lox.Heap.Basic
import Lox.RuntimeError

/-!
# Chains of environments

An environment and those around it form a chain. A name is looked up along the chain, or at a
fixed distance on it. The chain never holds more environments than the heap, which bounds every
walk.
-/

namespace Lox.Heap

/-- The environments from `id` outwards, at most `fuel` beyond the first. -/
def chainFrom (heap : Heap) : (fuel : Nat) → EnvironmentId → List EnvironmentId
  | 0, id => [id]
  | fuel + 1, id =>
      match (heap.environment id).enclosing with
      | some outer => id :: chainFrom heap fuel outer
      | none => [id]

/-- The environments from `id` outwards. -/
def chain (heap : Heap) (id : EnvironmentId) : List EnvironmentId :=
  heap.chainFrom heap.environments.size id

/-- The value that an environment itself binds to a name. -/
def binding? (heap : Heap) (id : EnvironmentId) (name : String) : Option Value :=
  (heap.environment id).bindings.get? name

/-- Binds a name in an environment itself, replacing any earlier binding there. -/
def define (heap : Heap) (id : EnvironmentId) (name : String) (value : Value) : Heap :=
  { heap with
    environments := heap.environments.modify id fun environment =>
      { environment with bindings := environment.bindings.insert name value } }

/-- A definition is seen under its name in its environment, and nowhere else. -/
theorem binding?_define (heap : Heap) (id place : EnvironmentId) (name other : String)
    (value : Value) (inside : id < heap.environments.size) :
    (heap.define id name value).binding? place other =
      if id = place ∧ name = other then some value else heap.binding? place other := by
  by_cases hplace : id = place
  · subst hplace
    simp [define, binding?, environment, Array.getElem_modify, inside, Table.get?_insert]
  · simp [define, binding?, environment, hplace, Array.getElem?_modify]

/-- A definition does not change which environments enclose which. -/
theorem enclosing_define (heap : Heap) (id place : EnvironmentId) (name : String)
    (value : Value) :
    ((heap.define id name value).environment place).enclosing =
      (heap.environment place).enclosing := by
  by_cases hplace : id = place
  · subst hplace
    cases h : heap.environments[id]? <;> simp [define, environment, Array.getElem?_modify, h]
  · simp [define, environment, hplace, Array.getElem?_modify]

/-! ## Along the chain -/

/-- The innermost environment on the chain that binds a name. -/
def binder? (heap : Heap) (id : EnvironmentId) (name : String) : Option EnvironmentId :=
  (heap.chain id).find? fun place => (heap.binding? place name).isSome

/-- The value of the innermost binding on the chain. -/
def get? (heap : Heap) (id : EnvironmentId) (name : String) : Option Value :=
  (heap.binder? id name).bind (heap.binding? · name)

/-- The error of a name that no environment on the chain binds. -/
def undefined (name : Token) : RuntimeError :=
  ⟨.undefinedVariable name.lexeme, name⟩

/-- Reads a name along the chain. -/
def get (heap : Heap) (id : EnvironmentId) (name : Token) : Except RuntimeError Value :=
  match heap.get? id name.lexeme with
  | some value => .ok value
  | none => .error (undefined name)

/-- Replaces the innermost binding of a name on the chain. -/
def assign (heap : Heap) (id : EnvironmentId) (name : Token) (value : Value) :
    Except RuntimeError Heap :=
  match heap.binder? id name.lexeme with
  | some place => .ok (heap.define place name.lexeme value)
  | none => .error (undefined name)

/-! ## At a distance -/

/-- The environment `distance` steps outwards, or the last one of a shorter chain. -/
def ancestor (heap : Heap) (id : EnvironmentId) : (distance : Nat) → EnvironmentId
  | 0 => id
  | distance + 1 =>
      match (heap.environment id).enclosing with
      | some outer => ancestor heap outer distance
      | none => id

/-- Reads a name in the environment at a distance, and only there. -/
def getAt? (heap : Heap) (id : EnvironmentId) (distance : Nat) (name : String) : Option Value :=
  heap.binding? (heap.ancestor id distance) name

/-- Binds a name in the environment at a distance, whether or not it is bound there. -/
def assignAt (heap : Heap) (id : EnvironmentId) (distance : Nat) (name : String) (value : Value) :
    Heap :=
  heap.define (heap.ancestor id distance) name value

/-! ## The first heap of a program -/

/-- The heap whose global environment holds what the language provides. -/
def fresh : Heap :=
  root.define globals Native.clock.name (.native .clock)

end Lox.Heap
