import Lox.Run.Machine

/-!
# Names

Reading and writing variables, `this` and methods of the superclass. A use of a name that has a
distance goes to the environment at that distance and nowhere else; any other goes to the globals.
-/

namespace Lox.Run

/-- Reads a variable: a local one at its distance, any other among the globals. -/
def readVariable (node : NodeId) (name : Token) : Action Value := do
  let machine ← get
  match machine.distances[node]? with
  | some distance =>
      match machine.heap.getAt? machine.environment distance name.lexeme with
      | some value => return value
      | none => fail (.undefinedVariable name.lexeme) name
  | none => lift (machine.heap.get Heap.globals name)

/-- Replaces the innermost binding of a name on the chain of an environment. -/
def assign (place : EnvironmentId) (name : Token) (value : Value) : Action Unit := do
  match (← heap).binder? place name.lexeme with
  | some binder => update fun heap => heap.define binder name.lexeme value
  | none => throw (.fault (Heap.undefined name))

/-- An assignment is the heap's own, with its error as the interrupt. -/
theorem assign_eq (place : EnvironmentId) (name : Token) (value : Value) (machine : Machine) :
    assign place name value machine =
      match machine.heap.assign place name value with
      | .ok heap => .ok () { machine with heap := heap }
      | .error error => .error (.fault error) machine := by
  have hheap : heap machine = .ok machine.heap machine := rfl
  simp only [assign, Heap.assign, bind, EStateM.bind, hheap]
  cases machine.heap.binder? place name.lexeme <;> rfl

/-- Writes a variable: a local one at its distance, any other among the globals, where it must be
defined already. -/
def writeVariable (node : NodeId) (name : Token) (value : Value) : Action Unit := do
  let machine ← get
  match machine.distances[node]? with
  | some distance =>
      update fun heap => heap.assignAt machine.environment distance name.lexeme value
  | none => assign Heap.globals name value

/-- Binds a name in the current environment. -/
def define (name : String) (value : Value) : Action Unit := do
  let place ← here
  update fun heap => heap.define place name value

/-- Reads a method of the superclass, bound to the instance that `this` is. The superclass is
found at the distance of `super`, and `this` one environment nearer. -/
def readSuper (node : NodeId) (keyword method : Token) : Action Value := do
  let machine ← get
  match machine.distances[node]? with
  | none => fail .unresolvedSuper keyword
  | some distance =>
      match machine.heap.getAt? machine.environment distance "super" with
      | some (.class_ superclass) =>
          match machine.heap.getAt? machine.environment (distance - 1) "this" with
          | some (.instance_ receiver) =>
              match machine.heap.findMethod? superclass method.lexeme with
              | some found => allocate fun heap => heap.boundMethod found receiver
              | none => fail (.undefinedProperty method.lexeme) method
          | _ => fail .unresolvedThis keyword
      | _ => fail .unresolvedSuper keyword

end Lox.Run
