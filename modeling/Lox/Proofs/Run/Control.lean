import Lox.Proofs.Run.History
import Lox.Proofs.Run.Sources

/-!
# The control state of a machine

However a task ends, the machine is back in the environment in which it was, with as many calls
under way. So the count of calls is right at every moment of a run, and a machine that has been used
is as ready as a new one.
-/

namespace Lox.Run

open Scope (Distances)

variable {fuel calls : Nat} {task inner : Task} {machine start moment : Machine}

/-! ## Calls under way -/

/-- How many callees are running in a task that are not running in the one that asked for it: the
body that a call expression asks for is that of its callee. -/
def Task.newCalls : Task → (inner : Task) → Nat
  | evaluate (.call _ _ _ _), executeAll _ => 1
  | _, _ => 0

/-- The run of a task from a machine comes to a moment at which so many call expressions are running
their callees: a task begins or ends then, or a callee begins. -/
inductive Reaches : (fuel : Nat) → Task → Machine → (calls : Nat) → Machine → Prop where
  | begins {fuel : Nat} {task : Task} {machine : Machine} : Reaches fuel task machine 0 machine
  | ends {fuel : Nat} {task : Task} {machine : Machine} :
      Reaches fuel task machine 0 (Outcome.machine (Task.run fuel task machine))
  | callee {fuel : Nat} {id : NodeId} {callee : Expr} {paren : Token} {arguments : List Expr}
      {machine evaluated ready : Machine} {value : Value} {values : List Value}
      {callable : Heap.Callable} :
      Task.run fuel (.evaluate callee) machine = .ok value evaluated →
        Task.run fuel (.evaluateAll arguments) evaluated = .ok values ready →
        ready.heap.callable? value = some callable → ready.heap.arity callable ≤ values.length →
        ready.callDepth < maxCallDepth →
          Reaches (fuel + 1) (.evaluate (.call id callee paren arguments)) machine 1
            { ready with callDepth := ready.callDepth + 1 }
  | inside {fuel calls : Nat} {task inner : Task} {machine start moment : Machine} :
      Asks (Task.run fuel) task machine inner start → Reaches fuel inner start calls moment →
        Reaches (fuel + 1) task machine (task.newCalls inner + calls) moment

theorem Task.newCalls_of_mem_parts (h : inner ∈ task.parts) : task.newCalls inner = 0 := by
  cases task with
  | evaluate e =>
      cases e with
      | call id callee paren arguments =>
          simp only [Task.parts, expressionParts, List.mem_cons, List.not_mem_nil, or_false] at h
          rcases h with rfl | rfl <;> rfl
      | _ => rfl
  | _ => rfl

theorem Task.newCalls_of_calls (h : task.Calls inner) : task.newCalls inner = 1 := by
  cases h
  rfl

/-! ## What is restored -/

/-- However a task ends, environment, depth of calls and distances are what they were. -/
theorem run_control (fuel : Nat) (task : Task) (machine : Machine) :
    (Outcome.machine (Task.run fuel task machine)).control = machine.control :=
  (begins_any fuel task machine).evolves.control

theorem run_callDepth (fuel : Nat) (task : Task) (machine : Machine) :
    (Outcome.machine (Task.run fuel task machine)).callDepth = machine.callDepth :=
  congrArg Control.callDepth (run_control fuel task machine)

/-- What is asked for begins with one more call under way if it is the body of a callee, and only
if there is room for that. -/
theorem Asks.callDepth (h : Asks (Task.run fuel) task machine inner start)
    (hroom : machine.callDepth ≤ maxCallDepth) :
    start.callDepth = machine.callDepth + task.newCalls inner ∧ start.callDepth ≤ maxCallDepth := by
  obtain ⟨hpermits, -, -⟩ := (begins_any (fuel + 1) task machine).asked h
  obtain ⟨hpart, hdepth⟩ | ⟨hcalls, hbelow, hdepth⟩ := hpermits.depth
  · rw [Task.newCalls_of_mem_parts hpart, hdepth]
    exact ⟨rfl, hroom⟩
  · rw [Task.newCalls_of_calls hcalls, hdepth]
    exact ⟨rfl, hbelow⟩

/-- At every moment of a run the depth has grown by the number of callees that are running. -/
theorem Reaches.callDepth (h : Reaches fuel task machine calls moment)
    (hroom : machine.callDepth ≤ maxCallDepth) :
    moment.callDepth = machine.callDepth + calls ∧ moment.callDepth ≤ maxCallDepth := by
  induction h with
  | begins => exact ⟨rfl, hroom⟩
  | @ends fuel task machine =>
      rw [run_callDepth]
      exact ⟨rfl, hroom⟩
  | @callee fuel _ callee _ arguments machine evaluated ready _ _ _ hcallee harguments _ _ hbelow =>
      have hevaluated := run_callDepth fuel (.evaluate callee) machine
      have hready := run_callDepth fuel (.evaluateAll arguments) evaluated
      rw [hcallee] at hevaluated
      rw [harguments] at hready
      change ready.callDepth + 1 = machine.callDepth + 1 ∧ ready.callDepth + 1 ≤ maxCallDepth
      exact ⟨congrArg (· + 1) (hready.trans hevaluated), hbelow⟩
  | inside hasks _ ih =>
      obtain ⟨hstart, hroom'⟩ := hasks.callDepth hroom
      obtain ⟨hmoment, hbound⟩ := ih hroom'
      exact ⟨by omega, hbound⟩

/-! ## Machines that have been used -/

/-- The machine after any use of a new one: it learned distances, did tasks and flushed its output
in any order, and each of these may have failed. -/
inductive Used (clock : Nat → Float) (sink : Sink) : Machine → Prop where
  | start : Used clock sink (.start clock sink)
  | learn {machine : Machine} (distances : Distances) :
      Used clock sink machine → Used clock sink (machine.learn distances)
  | run {machine : Machine} (fuel : Nat) (task : Task) :
      Used clock sink machine → Used clock sink (Outcome.machine (Task.run fuel task machine))
  | flush {machine : Machine} :
      Used clock sink machine → Used clock sink (Outcome.machine (flush machine))

variable {clock : Nat → Float} {sink : Sink}

theorem flush_control (machine : Machine) :
    (Outcome.machine (flush machine)).control = machine.control := by
  rw [flush, settle]
  split <;> rfl

/-- Running a program is such a use, however it ends. -/
theorem Used.interpret (h : Used clock sink machine) (fuel : Nat) (program : List Stmt)
    (distances : Distances) :
    Used clock sink (Outcome.machine (interpret fuel program distances machine)) := by
  have hrun := (h.learn distances).run fuel (.executeAll program)
  rw [interpret_eq]
  cases hend : Task.run fuel (.executeAll program) (machine.learn distances) with
  | ok flow after =>
      rw [hend] at hrun
      exact hrun.flush
  | error interrupt after => rwa [hend] at hrun

theorem Used.ready (h : Used clock sink machine) :
    machine.environment = Heap.globals ∧ machine.callDepth = 0 := by
  induction h with
  | start => exact ⟨rfl, rfl⟩
  | learn distances _ ih => exact ih
  | @run machine fuel task _ ih =>
      have hsame := run_control fuel task machine
      exact ⟨(congrArg Control.environment hsame).trans ih.1,
        (congrArg Control.callDepth hsame).trans ih.2⟩
  | @flush machine _ ih =>
      have hsame := flush_control machine
      exact ⟨(congrArg Control.environment hsame).trans ih.1,
        (congrArg Control.callDepth hsame).trans ih.2⟩

/-! ## The control state -/

/-- However a task ends, the machine is in the environment in which it was and has as many calls
under way. So a machine that was used in any way is in the globals with no call under way, also
after a run that failed; and while it does a task the calls under way are those whose callees are
running, never more than there may be. -/
theorem control_is_restored :
    (∀ fuel task machine,
      (Outcome.machine (Task.run fuel task machine)).environment = machine.environment ∧
        (Outcome.machine (Task.run fuel task machine)).callDepth = machine.callDepth) ∧
    ∀ clock sink machine, Used clock sink machine →
      (machine.environment = Heap.globals ∧ machine.callDepth = 0) ∧
      (∀ fuel program distances,
        (Outcome.machine (interpret fuel program distances machine)).environment = Heap.globals ∧
          (Outcome.machine (interpret fuel program distances machine)).callDepth = 0) ∧
      ∀ fuel task calls moment, Reaches fuel task machine calls moment →
        moment.callDepth = calls ∧ moment.callDepth ≤ maxCallDepth := by
  refine ⟨fun fuel task machine => ?_, fun clock sink machine hused => ⟨hused.ready, ?_, ?_⟩⟩
  · have hsame := run_control fuel task machine
    exact ⟨congrArg Control.environment hsame, congrArg Control.callDepth hsame⟩
  · exact fun fuel program distances => (hused.interpret fuel program distances).ready
  · intro fuel task calls moment hreaches
    obtain ⟨-, hidle⟩ := hused.ready
    have hroom : machine.callDepth ≤ maxCallDepth := by
      rw [hidle]
      exact Nat.zero_le _
    obtain ⟨hcalls, hbound⟩ := hreaches.callDepth hroom
    rw [hidle, Nat.zero_add] at hcalls
    exact ⟨hcalls, hbound⟩

/-- A call of the clock. -/
def clockCall : Expr :=
  .call 1 (.var 0 ⟨.identifier, "clock", 1⟩) ⟨.symbol .rightParen, ")", 1⟩ []

theorem control_is_restored_clock :
    let machine := Machine.start (fun _ => 0) .unlimited
    let inside := { machine with callDepth := 1 }
    Used (fun _ => 0) .unlimited machine ∧ Reaches 2 (.evaluate clockCall) machine 1 inside ∧
      inside.callDepth = 1 ∧ inside.callDepth ≤ maxCallDepth := by
  intro machine inside
  have hreaches : Reaches 2 (.evaluate clockCall) machine 1 inside :=
    .callee (by rfl) (by rfl) (by rfl) (by decide) (by decide)
  exact ⟨.start, hreaches,
    (control_is_restored.2 _ _ machine .start).2.2 2 (.evaluate clockCall) 1 inside hreaches⟩

end Lox.Run
