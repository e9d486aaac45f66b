import Lox.Run.Name

/-!
# What reading and writing a name does

Reading and writing a name as equations, one for a name with a distance and one for any other.
-/

namespace Lox.Run

variable {machine : Machine} {node : NodeId} {distance : Nat} {name : Token} {value : Value}

theorem get_eq : (get : Action Machine) machine = .ok machine machine := rfl

theorem readVariable_local (h : machine.distances[node]? = some distance) :
    readVariable node name machine =
      match machine.heap.getAt? machine.environment distance name.lexeme with
      | some value => .ok value machine
      | none => .error (.fault ⟨.undefinedVariable name.lexeme, name⟩) machine := by
  simp only [readVariable, bind, EStateM.bind, get_eq, h]
  cases machine.heap.getAt? machine.environment distance name.lexeme <;> rfl

theorem readVariable_global (h : machine.distances[node]? = none) :
    readVariable node name machine =
      match machine.heap.get Heap.globals name with
      | .ok value => .ok value machine
      | .error error => .error (.fault error) machine := by
  simp only [readVariable, bind, EStateM.bind, get_eq, h]
  cases machine.heap.get Heap.globals name <;> rfl

theorem writeVariable_local (h : machine.distances[node]? = some distance) :
    writeVariable node name value machine =
      .ok () { machine with
        heap := machine.heap.assignAt machine.environment distance name.lexeme value } := by
  simp only [writeVariable, bind, EStateM.bind, get_eq, h]
  rfl

theorem writeVariable_global (h : machine.distances[node]? = none) :
    writeVariable node name value machine = assign Heap.globals name value machine := by
  simp only [writeVariable, bind, EStateM.bind, get_eq, h]

/-- A name that an environment binds itself is found there. -/
theorem binder?_of_bound {heap : Heap} {id : EnvironmentId} {name : String}
    (h : (heap.binding? id name).isSome) : heap.binder? id name = some id := by
  have hchain : ∃ rest, heap.chain id = id :: rest := by
    rw [Heap.chain]
    cases heap.environments.size with
    | zero => exact ⟨[], rfl⟩
    | succ fuel =>
        cases houter : (heap.environment id).enclosing with
        | none => exact ⟨[], by simp [Heap.chainFrom, houter]⟩
        | some outer => exact ⟨heap.chainFrom fuel outer, by simp only [Heap.chainFrom, houter]⟩
  obtain ⟨rest, hrest⟩ := hchain
  rw [Heap.binder?, hrest, List.find?_cons, h]

/-- A name that an environment binds itself is assigned there. -/
theorem assign_of_bound {place : EnvironmentId}
    (h : (machine.heap.binding? place name.lexeme).isSome) :
    assign place name value machine =
      .ok () { machine with heap := machine.heap.define place name.lexeme value } := by
  rw [assign_eq, Heap.assign, binder?_of_bound h]

/-! ## The globals have nothing around them -/

/-- An environment that nothing encloses is a chain by itself. -/
theorem chain_of_outermost {heap : Heap} {id : EnvironmentId}
    (h : (heap.environment id).enclosing = none) : heap.chain id = [id] := by
  rw [Heap.chain]
  cases heap.environments.size with
  | zero => rfl
  | succ fuel => simp [Heap.chainFrom, h]

theorem binder?_of_outermost {heap : Heap} {id : EnvironmentId}
    (h : (heap.environment id).enclosing = none) (name : String) :
    heap.binder? id name = if (heap.binding? id name).isSome then some id else none := by
  rw [Heap.binder?, chain_of_outermost h]
  cases hbound : (heap.binding? id name).isSome <;> simp [hbound]

theorem get?_of_outermost {heap : Heap} {id : EnvironmentId}
    (h : (heap.environment id).enclosing = none) (name : String) :
    heap.get? id name = heap.binding? id name := by
  rw [Heap.get?, binder?_of_outermost h]
  cases hbound : heap.binding? id name <;> simp [hbound]

end Lox.Run
