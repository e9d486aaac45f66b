import Lox.Heap.Environment
import Lox.Numeral.Notation

/-!
# Classes and instances

Methods are looked up in a class and then in those that it extends. Fields shadow methods, and a
method read from an instance becomes a new function that knows the instance as `this`.
-/

namespace Lox.Heap

/-- The classes from `id` upwards, at most `fuel` beyond the first. -/
def lineageFrom (heap : Heap) : (fuel : Nat) → ClassId → List ClassId
  | 0, id => [id]
  | fuel + 1, id =>
      match (heap.class_ id).superclass with
      | some parent => id :: lineageFrom heap fuel parent
      | none => [id]

/-- The class and those that it extends, nearest first. -/
def lineage (heap : Heap) (id : ClassId) : List ClassId :=
  heap.lineageFrom heap.classes.size id

/-- The method of a name in the nearest class that has one. -/
def findMethod? (heap : Heap) (id : ClassId) (name : String) : Option Closure :=
  (heap.lineage id).findSome? fun place => (heap.class_ place).methods.get? name

/-- The method that initializes new instances of a class. -/
def initializer? (heap : Heap) (id : ClassId) : Option Closure :=
  heap.findMethod? id "init"

/-- A method as a closure in which `this` is an instance. -/
def bindThis (heap : Heap) (method : Closure) (receiver : InstanceId) : Closure × Heap :=
  let (place, heap) := heap.child method.environment (some (.receiver method.declaration))
  ({ method with environment := place }, heap.define place "this" (.instance_ receiver))

/-- A method as a new function value in which `this` is an instance. -/
def boundMethod (heap : Heap) (method : Closure) (receiver : InstanceId) : Value × Heap :=
  let (closure, heap) := heap.bindThis method receiver
  let (id, heap) := heap.addFunction closure
  (.function id, heap)

/-- What the name of a property stands for. -/
inductive Property where
  | field (value : Value)
  | method (method : Closure)

/-- The property of a name: a field of the instance, or else a method of its class. -/
def property? (heap : Heap) (receiver : InstanceId) (name : String) : Option Property :=
  let entry := heap.instance_ receiver
  match entry.fields.get? name with
  | some value => some (.field value)
  | none => (heap.findMethod? entry.class_ name).map .method

/-- Stores a field of an instance. -/
def setField (heap : Heap) (receiver : InstanceId) (name : String) (value : Value) : Heap :=
  { heap with
    instances := heap.instances.modify receiver fun entry =>
      { entry with fields := entry.fields.insert name value } }

/-! ## What values need and look like -/

/-- Something that can be called. -/
inductive Callable where
  | native (native : Native)
  | closure (closure : Closure)
  | class_ (id : ClassId)

/-- A value as something that can be called. -/
def callable? (heap : Heap) : Value → Option Callable
  | .native f => some (.native f)
  | .function id => some (.closure (heap.closure id))
  | .class_ id => some (.class_ id)
  | _ => none

/-- The number of arguments that a call needs. A class needs as many as its initializer. -/
def arity (heap : Heap) : Callable → Nat
  | .native f => f.arity
  | .closure closure => closure.arity
  | .class_ id => (heap.initializer? id).elim 0 Closure.arity

/-- The text of a value. -/
def text (heap : Heap) : Value → String
  | .nil => "nil"
  | .bool true => "true"
  | .bool false => "false"
  | .number value => Numeral.plain value
  | .string value => value
  | .native f => "<native fn " ++ f.name ++ ">"
  | .function id => "<fn " ++ (heap.closure id).declaration.name.lexeme ++ ">"
  | .class_ id => (heap.class_ id).name
  | .instance_ id => (heap.class_ (heap.instance_ id).class_).name ++ " instance"

end Lox.Heap
