import Lox.Proofs.Run.Inheritance
import Lox.Proofs.Run.Script
import Lox.Proofs.Syntax.Shape

/-!
# Class declarations that fail

The name of a class is bound to `nil` before the superclass is evaluated. Only the superclass can end
the declaration in a fault, and then the name stays `nil`, whatever it was bound to before, and no
other binding has changed.
-/

namespace Lox.Run

variable {name : Token} {methods : List FunctionDecl} {machine : Machine}

/-! ## The parts of a declaration -/

/-- What is left of a class declaration when the superclass is known. -/
def finishClass (name : Token) (methods : List FunctionDecl) (superclass : Option ClassId) :
    Action Flow := do
  let place ← methodEnvironment superclass methods
  makeClass name methods superclass place
  return .normal

theorem execute_class_eq (sub : Runner) (name : Token) (superclass : Option Expr)
    (methods : List FunctionDecl) (machine : Machine) :
    execute sub (.class_ name superclass methods) machine =
      Outcome.andThen (evaluateSuperclass sub name superclass (machine.naming name))
        (finishClass name methods) := by
  rw [← bind_eq_andThen]
  simp only [execute, executeClass, bind_assoc]
  rfl

/-- A declaration whose name is bound ends well once the superclass is known. -/
theorem finishClass_ends (methods : List FunctionDecl) (superclass : Option ClassId)
    (h : (machine.heap.binding? machine.environment name.lexeme).isSome) :
    ∃ after, finishClass name methods superclass machine = .ok .normal after := by
  have hplace : ∃ place between, methodEnvironment superclass methods machine = .ok place between ∧
      between.environment = machine.environment ∧ machine.heap.Grows between.heap := by
    cases superclass with
    | none => exact ⟨_, _, rfl, rfl, .refl _⟩
    | some parent => exact ⟨_, _, rfl, rfl, (Heap.Grows.child _ _ _).trans (.define _ _ _ _)⟩
  obtain ⟨place, between, hplace, henvironment, hgrows⟩ := hplace
  have hbound : (between.heap.binding? between.environment name.lexeme).isSome :=
    henvironment ▸ hgrows.bound _ _ h
  obtain ⟨after, hafter⟩ := makeClass_ends methods superclass place hbound
  refine ⟨after, ?_⟩
  simp only [finishClass, bind_eq_andThen, hplace, hafter, Outcome.andThen]
  rfl

/-- Reading a variable changes nothing, and it fails only if the name is not defined. -/
theorem readVariable_keeps (node : NodeId) (name : Token) (machine : Machine) :
    (∃ value, readVariable node name machine = .ok value machine) ∨
      readVariable node name machine = .error (.fault (Heap.undefined name)) machine := by
  cases hdistance : machine.distances[node]? with
  | some distance =>
      rw [readVariable_local hdistance]
      cases machine.heap.getAt? machine.environment distance name.lexeme with
      | some value => exact .inl ⟨value, rfl⟩
      | none => exact .inr rfl
  | none =>
      rw [readVariable_global hdistance, Heap.get]
      cases machine.heap.get? Heap.globals name.lexeme with
      | some value => exact .inl ⟨value, rfl⟩
      | none => exact .inr rfl

/-! ## The declaration -/

/-- Evaluating a superclass that is given by its name changes nothing, and it fails only if the name
is not defined or what it names is no class. -/
theorem evaluateSuperclass_keeps (fuel : Nat) (name : Token) (id : NodeId) (superName : Token)
    (machine : Machine) :
    (∃ parent, evaluateSuperclass (Task.run (fuel + 1)) name (some (.var id superName)) machine =
        .ok (some parent) machine) ∨
      ∃ error, (error = Heap.undefined superName ∨ error = ⟨.superclassNotClass, superName⟩) ∧
        evaluateSuperclass (Task.run (fuel + 1)) name (some (.var id superName)) machine =
          .error (.fault error) machine := by
  have hread : Task.run (fuel + 1) (.evaluate (.var id superName)) machine =
      readVariable id superName machine := rfl
  rw [evaluateSuperclass_eq, hread]
  rcases readVariable_keeps id superName machine with ⟨value, hvalue⟩ | hnone
  · rw [hvalue]
    cases value with
    | class_ parent => exact .inl ⟨parent, rfl⟩
    | _ => exact .inr ⟨_, .inr rfl, rfl⟩
  · rw [hnone]
    exact .inr ⟨_, .inl rfl, rfl⟩

/-- A class declaration that ends in a fault has a superclass whose name is not defined or names no
class, and it has bound the name of the class to `nil` and done nothing else. -/
theorem execute_class_fault {property : Token → Prop} {superclass : Option Expr} {fuel : Nat}
    {error : RuntimeError} {after : Machine} (hsuperclass : Expr.NameOpt property superclass)
    (hplace : machine.environment < machine.heap.environments.size)
    (hrun : Task.run fuel (.execute (.class_ name superclass methods)) machine =
      .error (.fault error) after) :
    (∃ id superName, superclass = some (.var id superName) ∧
      (error = Heap.undefined superName ∨ error = ⟨.superclassNotClass, superName⟩)) ∧
      after = machine.naming name := by
  have hbound : ((machine.naming name).heap.binding? (machine.naming name).environment
      name.lexeme).isSome := by
    change ((machine.heap.define machine.environment name.lexeme .nil).binding?
      machine.environment name.lexeme).isSome
    rw [Heap.binding?_define_self hplace]
    rfl
  cases fuel with
  | zero => cases hrun
  | succ fuel =>
      change execute (Task.run fuel) (.class_ name superclass methods) machine = _ at hrun
      rw [execute_class_eq] at hrun
      have hends : ∀ parent, evaluateSuperclass (Task.run fuel) name superclass
          (machine.naming name) ≠ .ok parent (machine.naming name) := by
        intro parent hparent
        obtain ⟨last, hlast⟩ := finishClass_ends methods parent hbound
        rw [hparent] at hrun
        exact nomatch hlast.symm.trans hrun
      cases superclass with
      | none => exact absurd rfl (hends none)
      | some superclass =>
          obtain ⟨id, superName, rfl, -⟩ := hsuperclass
          cases fuel with
          | zero => cases hrun
          | succ fuel =>
              rcases evaluateSuperclass_keeps fuel name id superName (machine.naming name) with
                ⟨parent, hparent⟩ | ⟨found, hfound, hfault⟩
              · exact absurd hparent (hends (some parent))
              · rw [hfault] at hrun
                cases hrun
                exact ⟨⟨id, superName, rfl, hfound⟩, rfl⟩

variable {clock : Nat → Float} {sink : Sink} {state last : Machine}

/-- A class declaration that ends in a fault, in whatever state a machine passes through, does so for
its superclass, whose name is not defined or names no class. Afterwards every environment has exactly
the bindings that it had before, inside the environment that it was inside before, but that the
environment of the declaration binds the name of the class to `nil`. -/
theorem failed_class_leaves_nil (h : Passes clock sink state last) {property : Token → Prop}
    {superclass : Option Expr} (hsuperclass : Expr.NameOpt property superclass) {fuel : Nat}
    {error : RuntimeError} {after : Machine}
    (hrun : Task.run fuel (.execute (.class_ name superclass methods)) state =
      .error (.fault error) after) :
    (∃ id superName, superclass = some (.var id superName) ∧
      (error = Heap.undefined superName ∨ error = ⟨.superclassNotClass, superName⟩)) ∧
      after = { state with heap := state.heap.define state.environment name.lexeme .nil } ∧
      (∀ place other, after.heap.binding? place other =
        if state.environment = place ∧ name.lexeme = other then some .nil
        else state.heap.binding? place other) ∧
      ∀ place, (after.heap.environment place).enclosing =
        (state.heap.environment place).enclosing := by
  have hplace := h.grounded.environment_lt
  obtain ⟨herror, rfl⟩ := execute_class_fault hsuperclass hplace hrun
  exact ⟨herror, rfl, fun place other => Heap.binding?_define _ _ place _ other _ hplace,
    fun place => Heap.enclosing_define _ _ place _ _⟩

/-- A class whose superclass is named. -/
def subclassOf (name superName : String) : Stmt :=
  .class_ ⟨.identifier, name, 1⟩ (some (.var 0 ⟨.identifier, superName, 1⟩)) []

/-- A machine in which the superclass is a variable without a value. -/
def valueNamed : Machine :=
  Outcome.machine
    (Task.run 3 (.execute (.var ⟨.identifier, "B", 1⟩ none)) (.start (fun _ => 0) .unlimited))

theorem failed_class_leaves_nil_value :
    Passes (fun _ => 0) .unlimited valueNamed valueNamed ∧
      ∃ after, Task.run 3 (.execute (subclassOf "A" "B")) valueNamed =
          .error (.fault ⟨.superclassNotClass, ⟨.identifier, "B", 1⟩⟩) after ∧
        ∀ place other, after.heap.binding? place other =
          if Heap.globals = place ∧ "A" = other then some .nil
          else valueNamed.heap.binding? place other := by
  have hpasses : Passes (fun _ => 0) .unlimited valueNamed valueNamed := .here (.run 3 _ .start)
  have hsuperclass : Expr.NameOpt (fun _ => True) (some (.var 0 ⟨.identifier, "B", 1⟩)) :=
    ⟨_, _, rfl, rfl, True.intro⟩
  have hrun : Task.run 3 (.execute (subclassOf "A" "B")) valueNamed =
      .error (.fault ⟨.superclassNotClass, ⟨.identifier, "B", 1⟩⟩)
        (valueNamed.naming ⟨.identifier, "A", 1⟩) := by rfl
  exact ⟨hpasses, _, hrun, (failed_class_leaves_nil hpasses hsuperclass hrun).2.2.1⟩

/-- A machine that has declared a class. -/
def classNamed : Machine :=
  Outcome.machine (Task.run 3 (.execute (.class_ ⟨.identifier, "A", 1⟩ none []))
    (.start (fun _ => 0) .unlimited))

/-- A class that was declared is lost when its name is declared again and the superclass is not
defined: the binding is not what it was, and the name is read as `nil` from then on. -/
theorem failed_class_loses_class :
    Passes (fun _ => 0) .unlimited classNamed classNamed ∧
      classNamed.heap.binding? Heap.globals "A" = some (.class_ 0) ∧
      ∃ after, Task.run 3 (.execute (subclassOf "A" "B")) classNamed =
          .error (.fault ⟨.undefinedVariable "B", ⟨.identifier, "B", 1⟩⟩) after ∧
        after.heap.binding? Heap.globals "A" ≠ classNamed.heap.binding? Heap.globals "A" ∧
        Task.run 2 (.evaluate (.var 1 ⟨.identifier, "A", 1⟩)) after = .ok .nil after := by
  have hclass : classNamed.heap.binding? Heap.globals "A" = some (.class_ 0) := by rfl
  have hnil : (classNamed.naming ⟨.identifier, "A", 1⟩).heap.binding? Heap.globals "A" =
      some .nil := by rfl
  refine ⟨.here (.run 3 _ .start), hclass, classNamed.naming ⟨.identifier, "A", 1⟩, by rfl, ?_,
    by rfl⟩
  rw [hclass, hnil]
  nofun

end Lox.Run
