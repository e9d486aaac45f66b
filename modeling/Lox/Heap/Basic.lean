import Lox.Syntax.Region
import Lox.Table

/-!
# Values and the heap

A value is plain data or refers to a function, a class or an instance. These live in the heap
together with the environments, each kind in a list of its own to which new entries are appended;
an identity is a place in such a list, and two references are equal when they are to one place.
-/

namespace Lox

/-- A place in the list of environments. -/
abbrev EnvironmentId := Nat

/-- A place in the list of functions. -/
abbrev FunctionId := Nat

/-- A place in the list of classes. -/
abbrev ClassId := Nat

/-- A place in the list of instances. -/
abbrev InstanceId := Nat

/-- A function that the language itself provides. -/
inductive Native where
  | clock
  deriving DecidableEq, Repr

/-- A value of a running program. -/
inductive Value where
  | nil
  | bool (value : Bool)
  | number (value : Float)
  | string (value : String)
  | native (native : Native)
  | function (id : FunctionId)
  | class_ (id : ClassId)
  | instance_ (id : InstanceId)

instance : Inhabited Value := ⟨.nil⟩

/-- Bindings, the environment around them, and the region that the environment was made for. -/
structure Environment where
  bindings : Table Value
  enclosing : Option EnvironmentId
  region : Option Region
  deriving Inhabited

/-- A declaration together with the environment in which it was executed. -/
structure Closure where
  declaration : FunctionDecl
  environment : EnvironmentId
  isInitializer : Bool
  deriving Inhabited

/-- A class: its name, the class it extends, and its own methods. -/
structure Class where
  name : String
  superclass : Option ClassId
  methods : Table Closure
  deriving Inhabited

/-- An instance: its class and its fields. -/
structure Instance where
  class_ : ClassId
  fields : Table Value
  deriving Inhabited

/-- Everything that values refer to. -/
structure Heap where
  environments : Array Environment
  functions : Array Closure
  classes : Array Class
  instances : Array Instance

/-! ## Values by themselves -/

namespace Native

/-- The name under which the function is known. -/
def name : Native → String
  | clock => "clock"

/-- The number of arguments that the function needs. -/
def arity : Native → Nat
  | clock => 0

end Native

/-- The number of parameters of the declaration. -/
def Closure.arity (closure : Closure) : Nat :=
  closure.declaration.parameters.length

namespace Value

/-- Every value but `nil` and `false` counts as true. -/
def isTruthy : Value → Bool
  | nil => false
  | bool b => b
  | _ => true

/-- Values of different kinds are never equal; numbers are compared as numbers and references by
identity. -/
def equals : Value → Value → Bool
  | nil, nil => true
  | bool a, bool b => a == b
  | number a, number b => a == b
  | string a, string b => a == b
  | native a, native b => a == b
  | function a, function b => a == b
  | class_ a, class_ b => a == b
  | instance_ a, instance_ b => a == b
  | _, _ => false

/-- The value of a constant. -/
def ofLiteral : Literal → Value
  | .number value => number value
  | .string contents => string contents
  | .bool value => bool value
  | .nil => nil

end Value

/-! ## The heap as a whole -/

namespace Heap

/-- The place of the global environment. -/
def globals : EnvironmentId := 0

/-- The heap with an empty global environment and nothing else. -/
def root : Heap := ⟨#[⟨.empty, none, none⟩], #[], #[], #[]⟩

/-- The environment at a place. -/
def environment (heap : Heap) (id : EnvironmentId) : Environment :=
  heap.environments[id]?.getD default

/-- The function at a place. -/
def closure (heap : Heap) (id : FunctionId) : Closure :=
  heap.functions[id]?.getD default

/-- The class at a place. -/
def class_ (heap : Heap) (id : ClassId) : Class :=
  heap.classes[id]?.getD default

/-- The instance at a place. -/
def instance_ (heap : Heap) (id : InstanceId) : Instance :=
  heap.instances[id]?.getD default

/-- Appends an environment inside another one. -/
def child (heap : Heap) (enclosing : EnvironmentId) (region : Option Region := none) :
    EnvironmentId × Heap :=
  (heap.environments.size,
    { heap with environments := heap.environments.push ⟨.empty, some enclosing, region⟩ })

/-- Appends a function. -/
def addFunction (heap : Heap) (closure : Closure) : FunctionId × Heap :=
  (heap.functions.size, { heap with functions := heap.functions.push closure })

/-- Appends a class. -/
def addClass (heap : Heap) (entry : Class) : ClassId × Heap :=
  (heap.classes.size, { heap with classes := heap.classes.push entry })

/-- Appends an instance without fields. -/
def addInstance (heap : Heap) (id : ClassId) : InstanceId × Heap :=
  (heap.instances.size, { heap with instances := heap.instances.push ⟨id, .empty⟩ })

end Heap

end Lox
