import Lox.Proofs.Heap.Keyword
import Lox.Proofs.Heap.Lasting
import Lox.Proofs.Run.Script

/-!
# The object model

In every state of a run, the log until then says what each property of each instance stands for: the
value that was last stored in the field, or else a method of the class, bound to the instance.
-/

namespace Lox.Run

open Scope (Distances)

variable {fuel rest : Nat} {task inner last : Task} {machine start moment state : Machine}
  {log further : List Event}

/-! ## Scripts and what steps ask for -/

/-- What comes in a list has a first place there. -/
theorem exists_first {α : Type} {x : α} {xs : List α} (h : x ∈ xs) :
    ∃ i : Nat, xs[i]? = some x ∧ x ∉ xs.take i := by
  classical
  induction xs with
  | nil => cases h
  | cons first rest ih =>
      by_cases hfirst : first = x
      · exact ⟨0, by simp [hfirst], by simp⟩
      · obtain ⟨i, hi, hnot⟩ := ih ((List.mem_cons.mp h).resolve_left (Ne.symm hfirst))
        exact ⟨i + 1, by simpa using hi, by simpa [Ne.symm hfirst] using hnot⟩

/-- A step asks exactly for the tasks that it has done in turn. -/
theorem InTurn.asks_iff {sub : Runner} {asked : List (Task × Machine)}
    (h : InTurn sub (fun runner => task.step runner) machine asked) :
    Asks sub task machine inner start ↔ (inner, start) ∈ asked := by
  refine ⟨fun hasks => ?_, fun hmem => ?_⟩
  · obtain ⟨other, hother, hdiffers⟩ := hasks
    apply Classical.byContradiction
    intro hnot
    refine hdiffers (h.settled other fun p hp => hother p.1 p.2 fun heq => hnot ?_)
    rwa [← heq]
  · obtain ⟨i, hi, hnot⟩ := exists_first hmem
    refine asks_of_interrupt fun other interrupt hsame hinner => ?_
    refine h.interrupted i (inner, start) hi other interrupt start
      (fun q hq => hsame q.1 q.2 fun heq => hnot ?_) hinner
    rwa [← heq]

/-- Every step of a run follows its script. -/
theorem Grounded.scripted (h : Grounded machine) (fuel : Nat) (task : Task) :
    Scripted (Task.run fuel) (events fuel) (fun runner => task.step runner) machine
      (task.script (Task.run fuel) machine) :=
  step_scripted (run_spares _ fuel) h.resides task

theorem Grounded.asks_iff (h : Grounded machine) :
    Asks (Task.run fuel) task machine inner start ↔
      .ask inner start ∈ task.script (Task.run fuel) machine := by
  rw [(h.scripted fuel task).turn.asks_iff, mem_asks]

/-! ## The log of a run -/

/-- A run replays its log. -/
theorem Grounded.events_play (h : Grounded machine) (fuel : Nat) (task : Task) :
    Chronicles (Task.run fuel) (events fuel) task machine := by
  induction fuel generalizing task machine with
  | zero => exact .nil
  | succ fuel ih =>
      exact ((h.scripted fuel task).replays fun inner start hmem =>
        ih (h.asks (h.asks_iff.mpr hmem)) inner).plays

/-- While a task is done, the machine is in a state after these events: the task begins or ends
there, or something that it asks for does. -/
inductive Unfolds : (fuel : Nat) → Task → Machine → List Event → Machine → Prop where
  | begins {fuel : Nat} {task : Task} {machine : Machine} : Unfolds fuel task machine [] machine
  | ends {fuel : Nat} {task : Task} {machine : Machine} :
      Unfolds fuel task machine (events fuel task machine)
        (Outcome.machine (Task.run fuel task machine))
  | inside {fuel : Nat} {task inner : Task} {machine start state : Machine} {log : List Event}
      {before after : List Deed} :
      task.script (Task.run fuel) machine = before ++ .ask inner start :: after →
        Unfolds fuel inner start log state →
          Unfolds (fuel + 1) task machine (before.flatMap (Deed.events (events fuel)) ++ log) state

/-- The state of a run replays its log until then. -/
theorem Unfolds.plays (h : Unfolds fuel task machine log state) (hgrounded : Grounded machine) :
    Grounded state ∧ Plays (objects machine.heap) log (objects state.heap) := by
  induction h with
  | begins => exact ⟨hgrounded, .nil⟩
  | ends => exact ⟨hgrounded.run _ _, hgrounded.events_play _ _⟩
  | @inside fuel task inner machine start state log before after hscript _ ih =>
      have hasks {inner : Task} {start : Machine}
          (hmem : .ask inner start ∈ task.script (Task.run fuel) machine) :
          Asks (Task.run fuel) task machine inner start := hgrounded.asks_iff.mpr hmem
      have hreplays := (hgrounded.scripted fuel task).replays fun inner start hmem =>
        (hgrounded.asks (hasks hmem)).events_play fuel inner
      rw [hscript] at hreplays
      obtain ⟨hstate, hplays⟩ := ih (hgrounded.asks (hasks (hscript ▸ List.mem_append_right _
        List.mem_cons_self)))
      exact ⟨hstate, hreplays.until_ask.append hplays⟩

/-- Every state to which a run comes has a log. -/
theorem Comes.unfolds (h : Comes fuel task machine rest last moment)
    (hgrounded : Grounded machine) (hstate : Unfolds rest last moment log state) :
    ∃ log, Unfolds fuel task machine log state := by
  induction h with
  | here => exact ⟨log, hstate⟩
  | inside hasks _ ih =>
      obtain ⟨inside, hinside⟩ := ih (hgrounded.asks hasks) hstate
      obtain ⟨before, after, hscript⟩ := List.append_of_mem (hgrounded.asks_iff.mp hasks)
      exact ⟨_, .inside hscript hinside⟩

/-! ## The log of a machine in use -/

variable {clock : Nat → Float} {sink : Sink}

/-- A new machine was used, and these events have happened. -/
inductive Logged (clock : Nat → Float) (sink : Sink) : List Event → Machine → Prop where
  | start : Logged clock sink [] (.start clock sink)
  | learn {log : List Event} {machine : Machine} (distances : Distances) :
      Logged clock sink log machine → Logged clock sink log (machine.learn distances)
  | run {log : List Event} {machine : Machine} (fuel : Nat) (task : Task) :
      Logged clock sink log machine →
        Logged clock sink (log ++ events fuel task machine)
          (Outcome.machine (Task.run fuel task machine))
  | flush {log : List Event} {machine : Machine} :
      Logged clock sink log machine → Logged clock sink log (Outcome.machine (flush machine))

/-- A machine in use is in a state, and these events have happened until then. -/
inductive Recalls (clock : Nat → Float) (sink : Sink) : List Event → Machine → Prop where
  | during {past present : List Event} {machine state : Machine} {fuel : Nat} {task : Task} :
      Logged clock sink past machine → Unfolds fuel task machine present state →
        Recalls clock sink (past ++ present) state

theorem Logged.used (h : Logged clock sink log machine) : Used clock sink machine := by
  induction h with
  | start => exact .start
  | learn distances _ ih => exact ih.learn distances
  | run fuel task _ ih => exact ih.run fuel task
  | flush _ ih => exact ih.flush

theorem Used.logged (h : Used clock sink machine) : ∃ log, Logged clock sink log machine := by
  induction h with
  | start => exact ⟨[], .start⟩
  | learn distances _ ih =>
      obtain ⟨log, hlog⟩ := ih
      exact ⟨log, hlog.learn distances⟩
  | run fuel task _ ih =>
      obtain ⟨log, hlog⟩ := ih
      exact ⟨_, hlog.run fuel task⟩
  | flush _ ih =>
      obtain ⟨log, hlog⟩ := ih
      exact ⟨log, hlog.flush⟩

theorem Logged.plays (h : Logged clock sink log machine) :
    Plays ⟨#[], #[]⟩ log (objects machine.heap) := by
  induction h with
  | start => exact .nil
  | learn distances _ ih => exact ih
  | @run log machine fuel task hlogged ih =>
      exact ih.append (hlogged.used.grounded.events_play fuel task)
  | flush _ ih =>
      rw [heap_flush]
      exact ih

theorem Recalls.plays (h : Recalls clock sink log state) :
    Grounded state ∧ Plays ⟨#[], #[]⟩ log (objects state.heap) := by
  cases h with
  | during hlogged hunfolds =>
      obtain ⟨hgrounded, hplays⟩ := hunfolds.plays hlogged.used.grounded
      exact ⟨hgrounded, hlogged.plays.append hplays⟩

/-- Every state through which a machine passes has a log. -/
theorem Passes.recalls {last : Machine} (h : Passes clock sink state last) :
    ∃ log, Recalls clock sink log state := by
  induction h with
  | @here machine hused =>
      obtain ⟨log, hlogged⟩ := hused.logged
      have hbegins : Unfolds 0 (.executeAll []) machine [] machine := .begins
      exact ⟨log ++ [], .during hlogged hbegins⟩
  | begins hused hcomes =>
      obtain ⟨past, hlogged⟩ := hused.logged
      obtain ⟨present, hunfolds⟩ := hcomes.unfolds hused.grounded .begins
      exact ⟨past ++ present, .during hlogged hunfolds⟩
  | ends hused hcomes =>
      obtain ⟨past, hlogged⟩ := hused.logged
      obtain ⟨present, hunfolds⟩ := hcomes.unfolds hused.grounded .ends
      exact ⟨past ++ present, .during hlogged hunfolds⟩
  | learn _ _ ih | run _ _ _ ih | flush _ ih => exact ih

/-! ## Storing and reading -/

/-- What storing a field does last is to store it, in the instance to which the object evaluated. -/
theorem events_set {id : NodeId} {object value : Expr} {name : Token} {result : Value}
    {after : Machine}
    (h : Task.run (fuel + 1) (.evaluate (.set id object name value)) machine = .ok result after) :
    ∃ receiver between ready,
      Task.run fuel (.evaluate object) machine = .ok (.instance_ receiver) between ∧
      Task.run fuel (.evaluate value) between = .ok result ready ∧
      events (fuel + 1) (.evaluate (.set id object name value)) machine =
        events fuel (.evaluate object) machine ++ events fuel (.evaluate value) between ++
          [.store receiver name.lexeme result] := by
  obtain ⟨target, between, htarget, hrest⟩ := ok_of_bind h
  cases target with
  | instance_ receiver =>
      obtain ⟨stored, ready, hvalue, hrest⟩ := ok_of_bind hrest
      obtain ⟨_, _, hstore, hend⟩ := ok_of_bind hrest
      cases hstore
      cases hend
      refine ⟨receiver, between, ready, htarget, hvalue, ?_⟩
      simp [events, Task.script, expressionScript, askThen, htarget, hvalue, Deed.events]
  | _ => cases hrest

/-- A function on the heap is a method of which `this` is an instance: a new function in a new
environment inside that of the method. -/
structure IsBound (heap later : Heap) (method : Closure) (receiver : InstanceId)
    (id : FunctionId) : Prop where
  new : id = heap.functions.size ∧ later.functions.size = heap.functions.size + 1
  closure : later.closure id = { method with environment := heap.environments.size }
  enclosing : later.outer? heap.environments.size = some method.environment
  this : later.binding? heap.environments.size "this" = some (.instance_ receiver)
  objects : objects later = objects heap

/-- What reading a property gives, by what it stands for: the value of a field, a method as a new
function that knows the instance as `this`, or an error. -/
inductive ReadsProperty (state : Machine) (receiver : InstanceId) (name : Token) :
    Option Heap.Property → Outcome Value → Prop where
  | field {value : Value} : ReadsProperty state receiver name (some (.field value)) (.ok value state)
  | method {method : Closure} {id : FunctionId} {later : Heap} :
      IsBound state.heap later method receiver id →
        ReadsProperty state receiver name (some (.method method))
          (.ok (.function id) { state with heap := later })
  | undefined {error : RuntimeError} :
      error.fault.message = "Undefined property '" ++ name.lexeme ++ "'." → error.token = name →
        ReadsProperty state receiver name none (.error (.fault error) state)

theorem bindThis_this (heap : Heap) (method : Closure) (receiver : InstanceId) :
    (heap.bindThis method receiver).2.binding? heap.environments.size "this" =
      some (.instance_ receiver) :=
  (Heap.binding?_child_define heap method.environment _ "this" (.instance_ receiver)
    (Nat.le_refl _) "this").trans (by rw [if_pos rfl, if_pos rfl])

theorem bindThis_outer (heap : Heap) (method : Closure) (receiver : InstanceId) :
    (heap.bindThis method receiver).2.outer? heap.environments.size = some method.environment := by
  have henclosing := Heap.enclosing_define
    (heap.child method.environment (some (.receiver method.declaration))).2
    heap.environments.size heap.environments.size "this" (.instance_ receiver)
  rw [Heap.environment_child, if_pos rfl] at henclosing
  exact henclosing

theorem isBound_boundMethod (heap : Heap) (method : Closure) (receiver : InstanceId) :
    IsBound heap (heap.boundMethod method receiver).2 method receiver heap.functions.size where
  new := ⟨rfl, by simp [Heap.boundMethod, Heap.addFunction, Heap.bindThis, Heap.child]⟩
  closure :=
    (Heap.closure_addFunction (heap.bindThis method receiver).2 _ _).trans (if_pos rfl)
  enclosing := bindThis_outer heap method receiver
  this := bindThis_this heap method receiver
  objects := rfl

/-- Reading a property of an object that evaluated to an instance. -/
theorem evaluateGet_reads {sub : Runner} {object : Expr} {receiver : InstanceId} (name : Token)
    (h : sub (.evaluate object) start = .ok (.instance_ receiver) state) :
    ReadsProperty state receiver name (state.heap.property? receiver name.lexeme)
      (evaluateGet sub object name start) := by
  have hheap : heap state = .ok state.heap state := rfl
  rw [evaluateGet, bind_eq_andThen, h]
  simp only [Outcome.andThen, bind_eq_andThen, hheap]
  rcases state.heap.property? receiver name.lexeme with _ | ⟨value | method⟩
  · exact .undefined rfl rfl
  · exact .field
  · exact .method (isBound_boundMethod _ _ _)

/-! ## The law -/

/-- Every state through which a machine passes has a log, and from then on every class keeps what it
extends and its methods, and every instance its class. In a state after a log, a property of an
instance stands for the value that was last stored in that field of that instance; if none was, for
the last method of its name in the nearest class that declares one; or else for nothing; and this is
what reading it gives. What a store adds to the log is the field, when its value has been
evaluated. -/
theorem object_model_law (clock : Nat → Float) (sink : Sink) :
    (∀ state last, Passes clock sink state last →
      (∃ log, Recalls clock sink log state) ∧ state.heap.Lasts last.heap) ∧
    (∀ log state, Recalls clock sink log state →
      ∀ receiver < state.heap.instances.size, ∀ name : Token,
        ∃ property, PropertyIs log receiver name.lexeme property ∧
          ∀ (sub : Runner) id object start,
            sub (.evaluate object) start = .ok (.instance_ receiver) state →
              ReadsProperty state receiver name property
                (Task.step sub (.evaluate (.get id object name)) start)) ∧
    ∀ fuel id object value name machine result after,
      Task.run (fuel + 1) (.evaluate (.set id object name value)) machine = .ok result after →
        ∃ receiver between ready,
          Task.run fuel (.evaluate object) machine = .ok (.instance_ receiver) between ∧
          Task.run fuel (.evaluate value) between = .ok result ready ∧
          events (fuel + 1) (.evaluate (.set id object name value)) machine =
            events fuel (.evaluate object) machine ++ events fuel (.evaluate value) between ++
              [.store receiver name.lexeme result] := by
  refine ⟨fun state last h => ⟨h.recalls, h.changes.lasts⟩,
    fun log state h receiver hreceiver name => ?_, fun _ _ _ _ _ _ _ _ h => events_set h⟩
  obtain ⟨hgrounded, hplays⟩ := h.plays
  exact ⟨_, propertyIs_of_plays hplays hgrounded.founded hreceiver name.lexeme,
    fun _ _ _ _ hobject => evaluateGet_reads name hobject⟩

/-- A variable with an instance. -/
def instanceUse : Expr := .var 2 ⟨.identifier, "a", 1⟩

/-- Storing a field of the instance. -/
def fieldStore : Expr := .set 4 instanceUse ⟨.identifier, "p", 1⟩ (.literal 3 (.bool true))

/-- A variable whose value is a new instance. -/
def instanceVariable : Stmt :=
  .var ⟨.identifier, "a", 1⟩
    (some (.call 1 (.var 0 ⟨.identifier, "A", 1⟩) ⟨.symbol .rightParen, ")", 1⟩ []))

/-- A machine that has declared a class and a variable with an instance of it. -/
def instanceMade : Machine :=
  Outcome.machine (Task.run 5 (.execute instanceVariable)
    (Outcome.machine (Task.run 5 (.execute baseClass) (.start (fun _ => 0) .unlimited))))

/-- The machine after the field is stored. -/
def fieldStored : Machine :=
  Outcome.machine (Task.run 3 (.evaluate fieldStore) instanceMade)

theorem object_model_law_stored :
    let log := [.declare ⟨"A", none, 0, [⟨⟨.identifier, "m", 1⟩, [], []⟩]⟩, .make 0,
      .store 0 "p" (.bool true)]
    (Passes (fun _ => 0) .unlimited fieldStored fieldStored ∧
      fieldStored.heap.Lasts fieldStored.heap) ∧
    Recalls (fun _ => 0) .unlimited log fieldStored ∧
    (∃ property, PropertyIs log 0 "p" property ∧
      ReadsProperty fieldStored 0 ⟨.identifier, "p", 1⟩ property
        (Task.run 2 (.evaluate (.get 5 instanceUse ⟨.identifier, "p", 1⟩)) fieldStored)) ∧
    ∃ receiver between ready,
      Task.run 2 (.evaluate instanceUse) instanceMade = .ok (.instance_ receiver) between ∧
      Task.run 2 (.evaluate (.literal 3 (.bool true))) between = .ok (.bool true) ready ∧
      events 3 (.evaluate fieldStore) instanceMade =
        events 2 (.evaluate instanceUse) instanceMade ++
          events 2 (.evaluate (.literal 3 (.bool true))) between ++
            [.store receiver "p" (.bool true)] := by
  intro log
  obtain ⟨hpasses, hreads, hstores⟩ := object_model_law (fun _ => 0) .unlimited
  have hused : Used (fun _ => 0) .unlimited fieldStored := .run 3 _ (.run 5 _ (.run 5 _ .start))
  have hlogged : Logged (fun _ => 0) .unlimited log fieldStored := by
    have hstart : Logged (fun _ => 0) .unlimited [] (.start (fun _ => 0) .unlimited) := .start
    have hmade := (hstart.run 5 (.execute baseClass)).run 5 (.execute instanceVariable)
    exact hmade.run 3 (.evaluate fieldStore)
  have hrecalls : Recalls (fun _ => 0) .unlimited log fieldStored := by
    have hbegins : Unfolds 0 (.executeAll []) fieldStored [] fieldStored := .begins
    exact .during hlogged hbegins
  obtain ⟨property, hproperty, hread⟩ :=
    hreads log fieldStored hrecalls 0 (by decide) ⟨.identifier, "p", 1⟩
  exact ⟨⟨.here hused, (hpasses _ _ (.here hused)).2⟩, hrecalls,
    ⟨property, hproperty, hread (Task.run 1) 5 instanceUse fieldStored (by rfl)⟩,
    hstores 2 4 instanceUse (.literal 3 (.bool true)) _ instanceMade _ _ (by rfl)⟩

end Lox.Run
