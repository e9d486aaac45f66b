import Lox.Heap.Class
import Lox.Run.Output
import Lox.Scope.Resolver

/-!
# The machine that runs a program

A machine holds the heap, the current environment, the number of calls under way, the distances of
local names, a clock and the output. A run changes the machine and ends with a result or with an
interrupt: a fault of the program, a refusal of the sink, or the end of the fuel.
-/

namespace Lox.Run

open Scope (Distances)

/-- Calls that may be under way at a time. -/
def maxCallDepth : Nat := 200

/-- The state of a running program. -/
structure Machine where
  heap : Heap
  environment : EnvironmentId
  callDepth : Nat
  distances : Distances
  clock : Nat → Float
  clockReads : Nat
  sink : Sink
  output : Output

/-- A machine in its global environment. -/
def Machine.start (clock : Nat → Float) (sink : Sink) : Machine where
  heap := .fresh
  environment := Heap.globals
  callDepth := 0
  distances := ∅
  clock := clock
  clockReads := 0
  sink := sink
  output := .start

/-- Why a run ends without a result. -/
inductive Interrupt where
  | fault (error : RuntimeError)
  | refused (message : String)
  | outOfFuel

/-- Something the machine does, with a result of a type. -/
abbrev Action := EStateM Interrupt Machine

/-! ## Steps -/

/-- Ends the run with a fault at a token. -/
@[inline] def fail {α : Type} (fault : RuntimeFault) (token : Token) : Action α :=
  throw (.fault ⟨fault, token⟩)

/-- A result or a fault. -/
@[inline] def lift {α : Type} : Except RuntimeError α → Action α
  | .ok value => return value
  | .error error => throw (.fault error)

/-- The heap. -/
@[inline] def heap : Action Heap := do
  return (← get).heap

/-- A change of the heap that gives a result. -/
@[inline] def allocate {α : Type} (change : Heap → α × Heap) : Action α :=
  modifyGet fun machine =>
    let (result, heap) := change machine.heap
    (result, { machine with heap := heap })

/-- A change of the heap. -/
@[inline] def update (change : Heap → Heap) : Action Unit :=
  modify fun machine => { machine with heap := change machine.heap }

/-- The current environment. -/
@[inline] def here : Action EnvironmentId := do
  return (← get).environment

/-- Runs in another environment, and returns to the current one however that ends. -/
@[inline] def within {α : Type} (place : EnvironmentId) (run : Action α) : Action α :=
  fun machine =>
  let outer := machine.environment
  match run { machine with environment := place } with
  | .ok result machine => .ok result { machine with environment := outer }
  | .error interrupt machine => .error interrupt { machine with environment := outer }

/-- Runs with one more call under way. -/
@[inline] def nested {α : Type} (run : Action α) : Action α := fun machine =>
  match run { machine with callDepth := machine.callDepth + 1 } with
  | .ok result machine => .ok result { machine with callDepth := machine.callDepth - 1 }
  | .error interrupt machine =>
      .error interrupt { machine with callDepth := machine.callDepth - 1 }

/-- Reads the clock. -/
def readClock : Action Float :=
  modifyGet fun machine =>
    (machine.clock machine.clockReads, { machine with clockReads := machine.clockReads + 1 })

/-- Replaces the output, and ends the run if the sink refused. -/
@[inline] def settle (offer : Sink → Output → Option String × Output) : Action Unit :=
  fun machine =>
  match offer machine.sink machine.output with
  | (none, output) => .ok () { machine with output := output }
  | (some message, output) => .error (.refused message) { machine with output := output }

/-- Writes a text. -/
def write (text : String) : Action Unit :=
  settle fun sink output => sink.offer (Text.encode text) output

/-- Flushes the output. -/
def flush : Action Unit :=
  settle Sink.flush

end Lox.Run
