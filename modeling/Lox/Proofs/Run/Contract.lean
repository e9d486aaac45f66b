import Lox.Run.Evaluation

/-!
# Contracts of tasks

A contract says what has to hold before a task and what holds after it. `Visits` lists the tasks
that a run comes to, with the machines from which it does them. If the steps of tasks keep a
contract, then every run does, and every task that a run comes to is begun as the contract asks.
-/

namespace Lox.Run

variable {α β : Type}

/-- What an action ends with. -/
abbrev Outcome (α : Type) := EStateM.Result Interrupt Machine α

/-- The machine in which an action ends. -/
def Outcome.machine : Outcome α → Machine
  | .ok _ machine | .error _ machine => machine

/-- The outcome with its machine changed. -/
def Outcome.put (change : Machine → Machine) : Outcome α → Outcome α
  | .ok a after => .ok a (change after)
  | .error interrupt after => .error interrupt (change after)

theorem Outcome.machine_put (change : Machine → Machine) (outcome : Outcome α) :
    (outcome.put change).machine = change outcome.machine := by
  cases outcome <;> rfl

/-- However an action in another environment ends, the machine returns to the one where it was. -/
theorem within_eq_put (place : EnvironmentId) (action : Action α) (machine : Machine) :
    within place action machine =
      Outcome.put (fun after => { after with environment := machine.environment })
        (action { machine with environment := place }) := by
  simp only [within]
  cases action { machine with environment := place } <;> rfl

/-- However a call ends, it is no longer under way. -/
theorem nested_eq_put (action : Action α) (machine : Machine) :
    nested action machine =
      Outcome.put (fun after => { after with callDepth := after.callDepth - 1 })
        (action { machine with callDepth := machine.callDepth + 1 }) := by
  simp only [nested]
  cases action { machine with callDepth := machine.callDepth + 1 } <;> rfl

/-! ## What a run comes to -/

/-- The step of a task from a machine depends on what the task `inner` does from `start`: it would
end otherwise if only that were done otherwise. -/
def Asks (sub : Runner) (task : Task) (machine : Machine) (inner : Task) (start : Machine) : Prop :=
  ∃ other : Runner,
    (∀ task machine, (task, machine) ≠ (inner, start) → other task machine = sub task machine) ∧
      task.step other machine ≠ task.step sub machine

/-- The run of a task from a machine comes to the task `last`, at the machine `moment`. -/
inductive Visits : (fuel : Nat) → Task → Machine → (last : Task) → (moment : Machine) → Prop where
  | here {fuel : Nat} {task : Task} {machine : Machine} : Visits fuel task machine task machine
  | inside {fuel : Nat} {task inner last : Task} {machine start moment : Machine} :
      Asks (Task.run fuel) task machine inner start → Visits fuel inner start last moment →
        Visits (fuel + 1) task machine last moment

/-- A step that passes on how a task is interrupted asks for the task. -/
theorem asks_of_interrupt {sub : Runner} {task inner : Task} {machine start : Machine}
    (h : ∀ (other : Runner) (interrupt : Interrupt),
      (∀ task machine, (task, machine) ≠ (inner, start) → other task machine = sub task machine) →
        other inner start = .error interrupt start →
          ∃ after, task.step other machine = .error interrupt after) :
    Asks sub task machine inner start := by
  classical
  let interrupted (interrupt : Interrupt) : Runner := fun task machine =>
    if (task, machine) = (inner, start) then .error interrupt machine else sub task machine
  have hsame : ∀ interrupt task machine, (task, machine) ≠ (inner, start) →
      interrupted interrupt task machine = sub task machine :=
    fun interrupt task machine hne => if_neg hne
  have hinner : ∀ interrupt, interrupted interrupt inner start = .error interrupt start :=
    fun interrupt => if_pos rfl
  obtain ⟨first, hfirst⟩ := h _ (.refused "") (hsame _) (hinner _)
  by_cases hrefused : task.step sub machine = .error (.refused "") first
  · obtain ⟨second, hsecond⟩ := h _ .outOfFuel (hsame _) (hinner _)
    exact ⟨interrupted .outOfFuel, hsame _, by simp [hsecond, hrefused]⟩
  · exact ⟨interrupted (.refused ""), hsame _, by rw [hfirst]; exact Ne.symm hrefused⟩

/-! ## Contracts -/

/-- What has to hold before a task and what holds after it, for some further knowledge. -/
structure Contract where
  Knowledge : Type
  before : Knowledge → Task → Machine → Prop
  after : Knowledge → (task : Task) → Machine → Outcome task.Result → Prop

namespace Contract

variable (contract : Contract)

/-- A runner that keeps the contract. -/
def Kept (runner : Runner) : Prop :=
  ∀ knowledge task machine, contract.before knowledge task machine →
    contract.after knowledge task machine (runner task machine)

/-- Runners that do the same wherever the contract applies. -/
def Alike (runner other : Runner) : Prop :=
  ∀ knowledge task machine, contract.before knowledge task machine →
    other task machine = runner task machine

/-- A step keeps the contract, and asks only for tasks that are begun as the contract says, if the
runner of the tasks inside keeps the contract. -/
def Stepwise : Prop :=
  ∀ sub other, contract.Kept sub → contract.Alike sub other →
    ∀ knowledge task machine, contract.before knowledge task machine →
      task.step other machine = task.step sub machine ∧
        contract.after knowledge task machine (task.step sub machine)

variable {contract}

/-- Every run keeps a contract that every step keeps. -/
theorem Stepwise.run_kept (hstep : contract.Stepwise)
    (hfuel : ∀ knowledge task machine, contract.before knowledge task machine →
      contract.after knowledge task machine (.error .outOfFuel machine))
    (fuel : Nat) : contract.Kept (Task.run fuel) := by
  induction fuel with
  | zero => exact hfuel
  | succ fuel ih =>
      intro knowledge task machine hbefore
      exact (hstep _ _ ih (fun _ _ _ _ => rfl) knowledge task machine hbefore).2

/-- Every task that a run comes to is begun as the contract asks. -/
theorem Stepwise.visits_before (hstep : contract.Stepwise)
    (hfuel : ∀ knowledge task machine, contract.before knowledge task machine →
      contract.after knowledge task machine (.error .outOfFuel machine))
    {fuel : Nat} {task last : Task} {machine moment : Machine}
    (hvisits : Visits fuel task machine last moment) {knowledge : contract.Knowledge}
    (hbefore : contract.before knowledge task machine) :
    ∃ knowledge, contract.before knowledge last moment := by
  induction hvisits generalizing knowledge with
  | here => exact ⟨knowledge, hbefore⟩
  | @inside fuel task inner last machine start moment hasks _ ih =>
      obtain ⟨other, hother, hdiffers⟩ := hasks
      apply Classical.byContradiction
      intro hnone
      apply hdiffers
      refine (hstep _ _ (hstep.run_kept hfuel fuel) ?_ knowledge task machine hbefore).1
      intro knowledge' task' machine' hbefore'
      refine hother task' machine' ?_
      intro heq
      cases heq
      exact hnone (ih hbefore')

end Contract

/-! ## Actions step by step -/

/-- The machine in which an action ends is related to the first one, and a result is as expected. -/
@[reducible] def Outcome.Meets (related : Machine → Machine → Prop) (machine : Machine)
    (expect : α → Machine → Prop) : Outcome α → Prop
  | .ok a after => related machine after ∧ expect a after
  | .error _ after => related machine after

/-- From a machine, two actions end alike, and as they should. -/
def Proceeds (related : Machine → Machine → Prop) (action other : Action α) (machine : Machine)
    (expect : α → Machine → Prop) : Prop :=
  other machine = action machine ∧ Outcome.Meets related machine expect (action machine)

namespace Proceeds

variable {related : Machine → Machine → Prop} {machine : Machine} {action other : Action α}
  {expect : α → Machine → Prop} {expect' : β → Machine → Prop}

theorem mono {expect'' : α → Machine → Prop} (h : Proceeds related action other machine expect)
    (hexpect : ∀ a after, related machine after → expect a after → expect'' a after) :
    Proceeds related action other machine expect'' := by
  obtain ⟨hsame, hmeets⟩ := h
  refine ⟨hsame, ?_⟩
  cases hend : action machine with
  | ok a after =>
      rw [hend] at hmeets
      exact ⟨hmeets.1, hexpect a after hmeets.1 hmeets.2⟩
  | error interrupt after => rwa [hend] at hmeets

theorem bind (htrans : ∀ a b c, related a b → related b c → related a c)
    {second other' : α → Action β} (hfirst : Proceeds related action other machine expect)
    (hsecond : ∀ a after, related machine after → expect a after →
      Proceeds related (second a) (other' a) after expect') :
    Proceeds related (action >>= second) (other >>= other') machine expect' := by
  obtain ⟨hsame, hmeets⟩ := hfirst
  cases hend : action machine with
  | error interrupt after =>
      rw [hend] at hsame hmeets
      simp only [Proceeds, Bind.bind, EStateM.bind, hsame, hend]
      exact ⟨trivial, hmeets⟩
  | ok a after =>
      rw [hend] at hsame hmeets
      obtain ⟨hsame', hmeets'⟩ := hsecond a after hmeets.1 hmeets.2
      simp only [Proceeds, Bind.bind, EStateM.bind, hsame, hend]
      refine ⟨hsame', ?_⟩
      cases hend' : second a after with
      | ok b last =>
          rw [hend'] at hmeets'
          exact ⟨htrans _ _ _ hmeets.1 hmeets'.1, hmeets'.2⟩
      | error interrupt last =>
          rw [hend'] at hmeets'
          exact htrans _ _ _ hmeets.1 hmeets'

theorem pure {a : α} (hrefl : related machine machine) (h : expect a machine) :
    Proceeds related (Pure.pure a) (Pure.pure a) machine expect :=
  ⟨rfl, hrefl, h⟩

theorem throw {interrupt : Interrupt} (hrefl : related machine machine) :
    Proceeds related (throw interrupt : Action α) (throw interrupt) machine expect :=
  ⟨rfl, hrefl⟩

theorem ite {condition : Prop} [Decidable condition] {yes no yes' no' : Action α}
    (hyes : condition → Proceeds related yes yes' machine expect)
    (hno : ¬condition → Proceeds related no no' machine expect) :
    Proceeds related (if condition then yes else no) (if condition then yes' else no') machine
      expect := by
  split
  · exact hyes ‹_›
  · exact hno ‹_›

/-- An action that changes nothing but the state, and gives no interrupt. -/
theorem of_ok {a : α} {after : Machine} (h : action machine = .ok a after)
    (hrelated : related machine after) (hexpect : expect a after) :
    Proceeds related action action machine expect := by
  refine ⟨rfl, ?_⟩
  rw [h]
  exact ⟨hrelated, hexpect⟩

theorem heap (hrefl : related machine machine) :
    Proceeds related Run.heap Run.heap machine fun h after => h = machine.heap ∧ after = machine :=
  ⟨rfl, hrefl, rfl, rfl⟩

theorem here (hrefl : related machine machine) :
    Proceeds related Run.here Run.here machine
      fun place after => place = machine.environment ∧ after = machine :=
  ⟨rfl, hrefl, rfl, rfl⟩

theorem get (hrefl : related machine machine) :
    Proceeds related get get machine fun m after => m = machine ∧ after = machine :=
  ⟨rfl, hrefl, rfl, rfl⟩

/-- What happens in another environment ends in the current one. -/
theorem within {place : EnvironmentId}
    (hrestore : ∀ after, related { machine with environment := place } after →
      related machine { after with environment := machine.environment })
    (h : Proceeds related action other { machine with environment := place } expect) :
    Proceeds related (within place action) (within place other) machine
      fun a after => ∃ inner, expect a inner ∧
        after = { inner with environment := machine.environment } := by
  obtain ⟨hsame, hmeets⟩ := h
  simp only [Proceeds, Run.within, hsame]
  refine ⟨trivial, ?_⟩
  cases hend : action { machine with environment := place } with
  | ok a after =>
      rw [hend] at hmeets
      exact ⟨hrestore after hmeets.1, after, hmeets.2, rfl⟩
  | error interrupt after =>
      rw [hend] at hmeets
      exact hrestore after hmeets

/-- What happens inside a call ends outside it. -/
theorem nested
    (hrestore : ∀ after, related { machine with callDepth := machine.callDepth + 1 } after →
      related machine { after with callDepth := after.callDepth - 1 })
    (h : Proceeds related action other { machine with callDepth := machine.callDepth + 1 } expect) :
    Proceeds related (nested action) (nested other) machine
      fun a after => ∃ inner, expect a inner ∧
        after = { inner with callDepth := inner.callDepth - 1 } := by
  obtain ⟨hsame, hmeets⟩ := h
  simp only [Proceeds, Run.nested, hsame]
  refine ⟨trivial, ?_⟩
  cases hend : action { machine with callDepth := machine.callDepth + 1 } with
  | ok a after =>
      rw [hend] at hmeets
      exact ⟨hrestore after hmeets.1, after, hmeets.2, rfl⟩
  | error interrupt after =>
      rw [hend] at hmeets
      exact hrestore after hmeets

end Proceeds

end Lox.Run
