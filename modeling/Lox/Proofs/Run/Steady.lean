import Lox.Proofs.Run.Congruence
import Lox.Proofs.Run.Name

/-!
# Actions that keep scopes and environments together

What the congruence of scopes and environments means for a machine that is about to do a task at
a place of the text, and which actions keep it.
-/

namespace Lox.Run

open Scope (Frame Place Enclosing Distances)

variable {α β : Type}

/-! ## What holds before and after -/

/-- The sites of a task at a place. -/
def Task.sites (place : Place) : Task → List Occurrence
  | evaluate expression => expression.sites place
  | evaluateAll expressions => Expr.sitesAll place expressions
  | execute statement => statement.sites place
  | executeAll statements => Stmt.sitesAll place statements

/-- The shape of a task. -/
def Task.Formed : Task → Prop
  | evaluate expression => expression.Formed Token.Spelled
  | evaluateAll expressions => Expr.FormedAll Token.Spelled expressions
  | execute statement => statement.Formed Token.Spelled
  | executeAll statements => Stmt.FormedAll Token.Spelled statements

/-- Only an expression can be in an initializer, which is one of a local variable. -/
def Task.Fits (place : Place) : Task → Prop
  | evaluate _ | evaluateAll _ => ∀ name, place.initializing = some name →
      place.scopes ≠ [] ∧ ∀ keyword : Keyword, name ≠ keyword.spelling
  | execute _ | executeAll _ => place.initializing = none

/-- The machine is at a place: its environments are those of the scopes around the place. -/
structure Stands (known : List Occurrence) (distances : Distances) (place : Place)
    (machine : Machine) : Prop where
  heap : machine.heap.Congruent known
  distances : machine.distances = distances
  scopes : Realises machine.heap place.scopes machine.environment

/-- The task is a piece of a known program, at its place. -/
structure Task.Belongs (known : List Occurrence) (place : Place) (task : Task) : Prop where
  known : task.sites place ⊆ known
  formed : task.Formed
  fits : task.Fits place

/-- What does not change in a machine that keeps scopes and environments together. -/
structure Kept (known : List Occurrence) (machine after : Machine) : Prop where
  heap : after.heap.Congruent known
  grows : machine.heap.Grows after.heap
  environment : after.environment = machine.environment
  distances : after.distances = machine.distances

/-- A statement that ends normally leaves its names declared. -/
def Task.Leaves (place : Place) : (task : Task) → task.Result → Machine → Prop
  | execute statement, .normal, after =>
      Realises after.heap (place.after statement).scopes after.environment
  | _, _, _ => True

/-- Tasks at places keep scopes and environments together. -/
def congruence (known : List Occurrence) (distances : Distances) : Contract where
  Knowledge := Place
  before place task machine := Stands known distances place machine ∧ task.Belongs known place
  after place task machine outcome := Outcome.Meets (Kept known) machine (task.Leaves place) outcome

variable {known : List Occurrence} {distances : Distances} {machine after : Machine}

theorem Kept.refl (h : machine.heap.Congruent known) : Kept known machine machine :=
  ⟨h, .refl _, rfl, rfl⟩

theorem Kept.trans {a b c : Machine} (first : Kept known a b) (second : Kept known b c) :
    Kept known a c :=
  ⟨second.heap, first.grows.trans second.grows, second.environment.trans first.environment,
    second.distances.trans first.distances⟩

theorem Stands.kept {place : Place} (h : Stands known distances place machine)
    (hkept : Kept known machine after) : Stands known distances place after :=
  ⟨hkept.heap, hkept.distances.trans h.distances, by
    rw [hkept.environment]
    exact h.scopes.grows hkept.grows⟩

/-! ## Actions that leave the machine as it is -/

/-- An action that looks at the machine and leaves it as it is. -/
def Unchanging (action : Action α) : Prop :=
  ∀ machine, (∃ a, action machine = .ok a machine) ∨
    ∃ interrupt, action machine = .error interrupt machine

namespace Unchanging

theorem pure (a : α) : Unchanging (Pure.pure a) :=
  fun _ => .inl ⟨a, rfl⟩

theorem fail (fault : RuntimeFault) (token : Token) : Unchanging (Run.fail fault token : Action α) :=
  fun _ => .inr ⟨_, rfl⟩

theorem unary (operator : Token) (operand : Value) : Unchanging (Run.unary operator operand) := by
  unfold Run.unary
  split
  · exact pure _
  · exact fail _ _
  · exact pure _
  · exact fail _ _

theorem arithmetic (operator : Token) (a b : Float) : Unchanging (Run.arithmetic operator a b) := by
  unfold Run.arithmetic
  split <;> first | exact pure _ | exact fail _ _

theorem binary (operator : Token) (left right : Value) :
    Unchanging (Run.binary operator left right) := by
  unfold Run.binary
  split
  · unfold Run.add
    split <;> first | exact pure _ | exact fail _ _
  · exact pure _
  · exact pure _
  · split
    · exact arithmetic _ _ _
    · exact fail _ _

theorem readVariable (node : NodeId) (name : Token) :
    Unchanging (Run.readVariable node name) := by
  intro machine
  cases hdistance : machine.distances[node]? with
  | some distance =>
      rw [readVariable_local hdistance]
      cases machine.heap.getAt? machine.environment distance name.lexeme with
      | some value => exact .inl ⟨value, rfl⟩
      | none => exact .inr ⟨_, rfl⟩
  | none =>
      rw [readVariable_global hdistance]
      cases machine.heap.get Heap.globals name with
      | ok value => exact .inl ⟨value, rfl⟩
      | error error => exact .inr ⟨_, rfl⟩

end Unchanging

/-! ## Actions that keep scopes and environments together -/

/-- Two actions end alike from a machine, and keep scopes and environments together. -/
abbrev Steady (known : List Occurrence) (action other : Action α) (machine : Machine)
    (expect : α → Machine → Prop) : Prop :=
  Proceeds (Kept known) action other machine expect

namespace Steady

variable {action other : Action α} {expect : α → Machine → Prop} {expect' : β → Machine → Prop}

theorem bind {second other' : α → Action β} (hfirst : Steady known action other machine expect)
    (hsecond : ∀ a after, Kept known machine after → expect a after →
      Steady known (second a) (other' a) after expect') :
    Steady known (action >>= second) (other >>= other') machine expect' :=
  Proceeds.bind (fun _ _ _ first last => first.trans last) hfirst hsecond

theorem pure {a : α} (h : machine.heap.Congruent known) (hexpect : expect a machine) :
    Steady known (Pure.pure a) (Pure.pure a) machine expect :=
  Proceeds.pure (Kept.refl h) hexpect

theorem unchanging (haction : Unchanging action) (h : machine.heap.Congruent known) :
    Steady known action action machine fun _ after => after = machine := by
  refine ⟨rfl, ?_⟩
  obtain ⟨a, hend⟩ | ⟨interrupt, hend⟩ := haction machine
  · rw [hend]
    exact ⟨Kept.refl h, rfl⟩
  · rw [hend]
    exact Kept.refl h

theorem fail (fault : RuntimeFault) (token : Token) (h : machine.heap.Congruent known) :
    Steady known (Run.fail fault token : Action α) (Run.fail fault token) machine expect :=
  Proceeds.throw (Kept.refl h)

theorem heap (h : machine.heap.Congruent known) :
    Steady known Run.heap Run.heap machine fun heap after => heap = machine.heap ∧ after = machine :=
  Proceeds.heap (Kept.refl h)

theorem here (h : machine.heap.Congruent known) :
    Steady known Run.here Run.here machine
      fun place after => place = machine.environment ∧ after = machine :=
  Proceeds.here (Kept.refl h)

theorem get (h : machine.heap.Congruent known) :
    Steady known MonadState.get MonadState.get machine
      fun state after => state = machine ∧ after = machine :=
  Proceeds.get (Kept.refl h)

theorem allocate {change : Heap → α × Heap} (hgrows : machine.heap.Grows (change machine.heap).2)
    (h : (change machine.heap).2.Congruent known) :
    Steady known (Run.allocate change) (Run.allocate change) machine fun a after =>
      a = (change machine.heap).1 ∧ after = { machine with heap := (change machine.heap).2 } :=
  Proceeds.of_ok rfl ⟨h, hgrows, rfl, rfl⟩ ⟨rfl, rfl⟩

theorem update {change : Heap → Heap} (hgrows : machine.heap.Grows (change machine.heap))
    (h : (change machine.heap).Congruent known) :
    Steady known (Run.update change) (Run.update change) machine fun _ after =>
      after = { machine with heap := change machine.heap } :=
  Proceeds.of_ok rfl ⟨h, hgrows, rfl, rfl⟩ rfl

/-- What happens in another environment. -/
theorem within {place : EnvironmentId}
    (h : Steady known action other { machine with environment := place } expect) :
    Steady known (Run.within place action) (Run.within place other) machine fun _ _ => True := by
  refine (Proceeds.within ?_ h).mono fun _ _ _ _ => True.intro
  intro after hkept
  exact ⟨hkept.heap, hkept.grows, rfl, hkept.distances⟩

/-- What happens inside a call. -/
theorem nested
    (h : Steady known action other { machine with callDepth := machine.callDepth + 1 } expect) :
    Steady known (Run.nested action) (Run.nested other) machine fun _ _ => True := by
  refine (Proceeds.nested ?_ h).mono fun _ _ _ _ => True.intro
  intro after hkept
  exact ⟨hkept.heap, hkept.grows, hkept.environment, hkept.distances⟩

/-- A new binding in the current environment. -/
theorem define (name : String) (value : Value) (h : machine.heap.Congruent known) :
    Steady known (Run.define name value) (Run.define name value) machine fun _ after =>
      after = { machine with heap := machine.heap.define machine.environment name value } := by
  refine (here h).bind ?_
  rintro _ _ _ ⟨rfl, rfl⟩
  exact update (Heap.Grows.define _ _ _ _) (h.define _ _ _)

/-- A binding that is replaced on the chain of an environment. -/
theorem assign (place : EnvironmentId) (name : Token) (value : Value)
    (h : machine.heap.Congruent known) :
    Steady known (Run.assign place name value) (Run.assign place name value) machine
      fun _ _ => True := by
  refine (heap h).bind ?_
  rintro _ after _ ⟨rfl, rfl⟩
  cases after.heap.binder? place name.lexeme with
  | some binder =>
      exact (update (Heap.Grows.define _ _ _ _) (h.define _ _ _)).mono fun _ _ _ _ => True.intro
  | none => exact Proceeds.throw (Kept.refl h)

/-- The output is no matter of scopes. -/
theorem settle (offer : Sink → Output → Option String × Output) (h : machine.heap.Congruent known) :
    Steady known (Run.settle offer) (Run.settle offer) machine fun _ _ => True := by
  refine ⟨rfl, ?_⟩
  rw [Run.settle]
  split
  · exact ⟨⟨h, .refl _, rfl, rfl⟩, True.intro⟩
  · exact ⟨h, .refl _, rfl, rfl⟩

end Steady

end Lox.Run
