import Lox.Proofs.Run.Call
import Lox.Proofs.Run.Object
import Lox.Proofs.Run.Passage

/-!
# Scripts

The script of a step lists what it does in its order: the tasks that it asks for, and what happens to
classes and instances between them. From the scripts of all steps comes the log of a run.
-/

namespace Lox.Run

variable {α β : Type}

/-! ## The script of a step -/

/-- One thing that a step does. -/
inductive Deed where
  | ask (task : Task) (machine : Machine)
  | event (event : Event)

section

variable (sub : Runner)

/-- Asks for a task, and goes on if it gives a result. -/
def askThen (task : Task) (machine : Machine) (next : task.Result → Machine → List Deed) :
    List Deed :=
  .ask task machine ::
    match sub task machine with
    | .ok a after => next a after
    | .error _ _ => []

/-- Asks for an expression that may be missing. -/
def optionalScript : Option Expr → Machine → List Deed
  | some value, machine => [.ask (.evaluate value) machine]
  | none, _ => []

/-- A call of something with enough arguments. -/
def invokeScript (callable : Heap.Callable) (values : List Value) (ready : Machine) : List Deed :=
  match callable with
  | .native _ => []
  | .closure closure => [.ask (.executeAll closure.declaration.body) (ready.inCall closure values)]
  | .class_ id =>
      let (receiver, added) := ready.heap.addInstance id
      .event (.make id) ::
        match added.initializer? id with
        | some method =>
            let (closure, bound) := added.bindThis method receiver
            [.ask (.executeAll closure.declaration.body)
              (Machine.inCall { ready with heap := bound } closure values)]
        | none => []

/-- A call, once callee and arguments have been evaluated. -/
def callScript (callee : Value) (values : List Value) (ready : Machine) : List Deed :=
  match ready.heap.callable? callee with
  | some callable =>
      if values.length < ready.heap.arity callable then []
      else if maxCallDepth ≤ ready.callDepth then []
      else invokeScript callable values ready
  | none => []

/-- What evaluating an expression does. -/
def expressionScript : Expr → Machine → List Deed
  | .literal _ _, _ | .var _ _, _ | .super_ _ _ _, _ | .this_ _ _, _ => []
  | .grouping _ inner, machine | .unary _ _ inner, machine | .assign _ _ inner, machine
  | .get _ inner _, machine => [.ask (.evaluate inner) machine]
  | .binary _ first _ second, machine =>
      askThen sub (.evaluate first) machine fun _ between =>
        [.ask (.evaluate second) between]
  | .logical _ first operator second, machine =>
      askThen sub (.evaluate first) machine fun value between =>
        if (if operator.category = .keyword .or_ then value.isTruthy else !value.isTruthy) then []
        else [.ask (.evaluate second) between]
  | .call _ callee _ arguments, machine =>
      askThen sub (.evaluate callee) machine fun callee between =>
        askThen sub (.evaluateAll arguments) between (callScript callee)
  | .set _ object name value, machine =>
      askThen sub (.evaluate object) machine fun target between =>
        match target with
        | .instance_ receiver =>
            askThen sub (.evaluate value) between fun value _ =>
              [.event (.store receiver name.lexeme value)]
        | _ => []

/-- What executing a class declaration does. -/
def classScript (name : Token) (superclass : Option Expr) (methods : List FunctionDecl)
    (machine : Machine) : List Deed :=
  match superclass with
  | none => [.event (.declare ⟨name.lexeme, none, machine.environment, methods⟩)]
  | some superclass =>
      askThen sub (.evaluate superclass) (machine.naming name) fun value evaluated =>
        match value with
        | .class_ parent =>
            [.event (.declare
              ⟨name.lexeme, some parent, evaluated.heap.environments.size, methods⟩)]
        | _ => []

/-- What executing a statement does. -/
def statementScript : Stmt → Machine → List Deed
  | .expression value, machine | .print value, machine =>
      [.ask (.evaluate value) machine]
  | .var _ value, machine | .return_ _ value, machine => optionalScript value machine
  | .block body, machine => [.ask (.executeAll body) (machine.inBlock body)]
  | .function _, _ => []
  | .class_ name superclass methods, machine => classScript sub name superclass methods machine
  | .ifThen condition thenBranch, machine =>
      askThen sub (.evaluate condition) machine fun value between =>
        if value.isTruthy then [.ask (.execute thenBranch) between] else []
  | .ifElse condition thenBranch elseBranch, machine =>
      askThen sub (.evaluate condition) machine fun value between =>
        if value.isTruthy then [.ask (.execute thenBranch) between]
        else [.ask (.execute elseBranch) between]
  | .while_ condition body, machine =>
      askThen sub (.evaluate condition) machine fun value between =>
        if value.isTruthy then
          askThen sub (.execute body) between fun flow again =>
            match flow with
            | .normal => [.ask (.execute (.while_ condition body)) again]
            | .returned _ => []
        else []

/-- What a step does. -/
def Task.script : Task → Machine → List Deed
  | evaluate e, machine => expressionScript sub e machine
  | evaluateAll [], _ => []
  | evaluateAll (e :: rest), machine =>
      askThen sub (.evaluate e) machine fun _ between =>
        [.ask (.evaluateAll rest) between]
  | execute s, machine => statementScript sub s machine
  | executeAll [], _ => []
  | executeAll (s :: rest), machine =>
      askThen sub (.execute s) machine fun flow between =>
        match flow with
        | .normal => [.ask (.executeAll rest) between]
        | .returned _ => []

end

/-! ## The log of a run -/

/-- What happens to classes and instances in an item of a script, given the logs of the tasks that
are asked for. -/
def Deed.events (log : Task → Machine → List Event) : Deed → List Event
  | ask task machine => log task machine
  | event happened => [happened]

/-- What happens to classes and instances during the run of a task, in its order. -/
def events : (fuel : Nat) → Task → Machine → List Event
  | 0, _, _ => []
  | fuel + 1, task, machine =>
      (task.script (Task.run fuel) machine).flatMap (Deed.events (events fuel))

/-! ## Actions that leave classes and instances alone -/

/-- However the action ends, classes and instances are what they were. -/
def Silent (action : Action α) : Prop :=
  ∀ machine, objects (Outcome.machine (action machine)).heap = objects machine.heap

namespace Silent

variable {action : Action α} {second : α → Action β}

theorem pure (a : α) : Silent (Pure.pure a) :=
  fun _ => rfl

theorem fail (fault : RuntimeFault) (token : Token) : Silent (Run.fail fault token : Action α) :=
  fun _ => rfl

theorem throw (interrupt : Interrupt) : Silent (MonadExcept.throw interrupt : Action α) :=
  fun _ => rfl

theorem heap : Silent Run.heap :=
  fun _ => rfl

theorem here : Silent Run.here :=
  fun _ => rfl

theorem get : Silent MonadState.get :=
  fun _ => rfl

theorem allocate {change : Heap → α × Heap}
    (h : ∀ heap, objects (change heap).2 = objects heap) : Silent (Run.allocate change) :=
  fun machine => h machine.heap

theorem update {change : Heap → Heap} (h : ∀ heap, objects (change heap) = objects heap) :
    Silent (Run.update change) :=
  fun machine => h machine.heap

theorem bind (hfirst : Silent action) (hsecond : ∀ a, Silent (second a)) :
    Silent (action >>= second) := by
  intro machine
  have hobjects := hfirst machine
  rw [bind_eq_andThen]
  cases hend : action machine with
  | ok a after =>
      rw [hend] at hobjects
      exact (hsecond a after).trans hobjects
  | error interrupt after =>
      rw [hend] at hobjects
      exact hobjects

theorem define (name : String) (value : Value) : Silent (Run.define name value) :=
  here.bind fun _ => update fun _ => rfl

theorem assign (place : EnvironmentId) (name : Token) (value : Value) :
    Silent (Run.assign place name value) := by
  refine heap.bind fun heap => ?_
  split
  · exact update fun _ => rfl
  · exact throw _

theorem settle (offer : Sink → Output → Option String × Output) : Silent (Run.settle offer) := by
  intro machine
  rw [Run.settle]
  split <;> rfl

theorem of_plain {action : Action Value} (h : Plain action) : Silent action := by
  intro machine
  obtain ⟨value, -, hend⟩ | ⟨interrupt, hend⟩ := h machine <;> rw [hend] <;> rfl

theorem readVariable (node : NodeId) (name : Token) : Silent (Run.readVariable node name) := by
  refine get.bind fun machine => ?_
  split
  · split
    · exact pure _
    · exact fail _ _
  · cases machine.heap.get Heap.globals name with
    | ok value => exact pure _
    | error error => exact throw _

theorem writeVariable (node : NodeId) (name : Token) (value : Value) :
    Silent (Run.writeVariable node name value) := by
  refine get.bind fun machine => ?_
  split
  · exact update fun _ => rfl
  · exact assign _ _ _

theorem readSuper (node : NodeId) (keyword method : Token) :
    Silent (Run.readSuper node keyword method) := by
  refine get.bind fun machine => ?_
  split
  · exact fail _ _
  · split
    · split
      · split
        · exact allocate fun _ => rfl
        · exact fail _ _
      · exact fail _ _
    · exact fail _ _

theorem methodEnvironment (superclass : Option ClassId) (methods : List FunctionDecl) :
    Silent (Run.methodEnvironment superclass methods) := by
  refine here.bind fun place => ?_
  cases superclass with
  | none => exact pure _
  | some id => exact .bind (allocate fun _ => rfl) fun _ => .bind (update fun _ => rfl) fun _ => pure _

end Silent

/-! ## Actions that follow a script -/

/-- The task that an item asks for. -/
def Deed.ask? : Deed → Option (Task × Machine)
  | ask task machine => some (task, machine)
  | event _ => none

/-- The tasks that a script asks for, in their order. -/
def asks (script : List Deed) : List (Task × Machine) :=
  script.filterMap Deed.ask?

theorem mem_asks {script : List Deed} {task : Task} {machine : Machine} :
    (task, machine) ∈ asks script ↔ .ask task machine ∈ script := by
  refine ⟨fun h => ?_, fun h => List.mem_filterMap.mpr ⟨_, h, rfl⟩⟩
  obtain ⟨item, hmem, hitem⟩ := List.mem_filterMap.mp h
  cases item with
  | ask task machine =>
      cases hitem
      exact hmem
  | event happened => cases hitem

/-- What happens to classes and instances during a task is in the log. -/
def Chronicles (sub : Runner) (log : Task → Machine → List Event) (task : Task)
    (machine : Machine) : Prop :=
  Plays (objects machine.heap) (log task machine)
    (objects (Outcome.machine (sub task machine)).heap)

/-- The classes and instances of a script: events happen to them, and each task begins with those of
then and has the log that is given. -/
inductive Replays (log : Task → Machine → List Event) : Objects → List Deed → Objects → Prop where
  | nil {before : Objects} : Replays log before [] before
  | event {before after : Objects} {event : Event} {rest : List Deed} :
      event.Fits before → Replays log (event.apply before) rest after →
        Replays log before (.event event :: rest) after
  | ask {task : Task} {machine : Machine} {middle after : Objects} {rest : List Deed} :
      Plays (objects machine.heap) (log task machine) middle → Replays log middle rest after →
        Replays log (objects machine.heap) (.ask task machine :: rest) after

namespace Replays

variable {log : Task → Machine → List Event} {before middle after : Objects}
  {script further : List Deed}

theorem append (first : Replays log before script middle)
    (second : Replays log middle further after) : Replays log before (script ++ further) after := by
  induction first with
  | nil => exact second
  | event hfits _ ih => exact .event hfits (ih second)
  | ask hplays _ ih => exact .ask hplays (ih second)

theorem plays (h : Replays log before script after) :
    Plays before (script.flatMap (Deed.events log)) after := by
  induction h with
  | nil => exact .nil
  | event hfits _ ih => exact .cons hfits ih
  | ask hplays _ ih => exact hplays.append ih

/-- A task that is asked for begins after what the script says before it. -/
theorem until_ask {task : Task} {machine : Machine}
    (h : Replays log before (script ++ .ask task machine :: further) after) :
    Plays before (script.flatMap (Deed.events log)) (objects machine.heap) := by
  induction script generalizing before with
  | nil =>
      cases h with
      | ask _ _ => exact .nil
  | cons deed rest ih =>
      cases h with
      | event hfits hrest => exact .cons hfits (ih hrest)
      | ask hplays hrest => exact hplays.append (ih hrest)

end Replays

/-- The action asks for the tasks of a script, one after the other, and what happens to classes and
instances meanwhile is what the script says. -/
structure Scripted (sub : Runner) (log : Task → Machine → List Event)
    (action : Runner → Action α) (machine : Machine) (script : List Deed) : Prop where
  turn : InTurn sub action machine (asks script)
  replays : (∀ inner start, .ask inner start ∈ script → Chronicles sub log inner start) →
    Replays log (objects machine.heap) script
      (objects (Outcome.machine (action sub machine)).heap)

namespace InTurn

variable {sub : Runner} {machine after : Machine} {asked : List (Task × Machine)}
  {first action : Runner → Action α} {second : α → Runner → Action β} {interrupt : Interrupt}

theorem bind_error (hfirst : InTurn sub first machine asked)
    (hresult : first sub machine = .error interrupt after) :
    InTurn sub (fun runner => first runner >>= fun a => second a runner) machine asked := by
  refine ⟨fun other hother => ?_, fun i p hp other interrupt last hother hinner => ?_⟩
  · rw [bind_eq_andThen, bind_eq_andThen, hfirst.settled other hother, hresult]
    rfl
  · obtain ⟨final, hend⟩ := hfirst.interrupted i p hp other interrupt last hother hinner
    exact ⟨final, by rw [bind_eq_andThen, hend]; rfl⟩

theorem nested
    (h : InTurn sub action { machine with callDepth := machine.callDepth + 1 } asked) :
    InTurn sub (fun runner => Run.nested (action runner)) machine asked := by
  refine ⟨fun other hother => ?_, fun i p hp other interrupt last hother hinner => ?_⟩
  · simp only [Run.nested, h.settled other hother]
  · obtain ⟨final, hend⟩ := h.interrupted i p hp other interrupt last hother hinner
    exact ⟨_, by simp only [Run.nested, hend]; rfl⟩

end InTurn

namespace Scripted

variable {sub : Runner} {log : Task → Machine → List Event} {machine after : Machine}
  {script further : List Deed} {first action : Runner → Action α}
  {second : α → Runner → Action β} {a : α}

/-- An action that asks for nothing and changes neither classes nor instances. -/
theorem none {action : Action α} (h : Silent action) :
    Scripted sub log (fun _ => action) machine [] :=
  ⟨.none action, fun _ => by rw [h machine]; exact .nil⟩

/-- An action that asks for nothing and makes one thing happen. -/
theorem event {action : Action α} {event : Event} (hfits : event.Fits (objects machine.heap))
    (hobjects : objects (Outcome.machine (action machine)).heap =
      event.apply (objects machine.heap)) :
    Scripted sub log (fun _ => action) machine [.event event] := by
  refine ⟨.none action, fun _ => .event hfits ?_⟩
  rw [hobjects]
  exact .nil

theorem ask (task : Task) : Scripted sub log (fun runner => runner task) machine
    [.ask task machine] := by
  exact ⟨.ask task, fun hinner => .ask (hinner task machine List.mem_cons_self) .nil⟩

theorem bind (hfirst : Scripted sub log first machine script)
    (hresult : first sub machine = .ok a after)
    (hsecond : Scripted sub log (second a) after further) :
    Scripted sub log (fun runner => first runner >>= fun a => second a runner) machine
      (script ++ further) := by
  refine ⟨?_, fun hinner => ?_⟩
  · rw [asks, List.filterMap_append]
    exact hfirst.turn.bind hresult hsecond.turn
  · have hbefore := hfirst.replays fun inner start hmem =>
      hinner inner start (List.mem_append_left _ hmem)
    have hafter := hsecond.replays fun inner start hmem =>
      hinner inner start (List.mem_append_right _ hmem)
    rw [hresult] at hbefore
    rw [bind_eq_andThen, hresult]
    exact hbefore.append hafter

theorem bind_error {interrupt : Interrupt} (hfirst : Scripted sub log first machine script)
    (hresult : first sub machine = .error interrupt after) :
    Scripted sub log (fun runner => first runner >>= fun a => second a runner) machine script := by
  refine ⟨hfirst.turn.bind_error hresult, fun hinner => ?_⟩
  have hbefore := hfirst.replays hinner
  rw [hresult] at hbefore
  rw [bind_eq_andThen, hresult]
  exact hbefore

/-- What comes last neither asks for anything nor changes classes and instances. -/
theorem bind_silent {last : α → Action β} (hfirst : Scripted sub log first machine script)
    (hlast : ∀ a, Silent (last a)) :
    Scripted sub log (fun runner => first runner >>= last) machine script := by
  cases hresult : first sub machine with
  | ok a after =>
      have hboth : Scripted sub log (fun runner => first runner >>= fun a => last a) machine
          (script ++ []) := hfirst.bind hresult (none (hlast a))
      rwa [List.append_nil] at hboth
  | error interrupt after => exact hfirst.bind_error hresult

/-- A task is asked for, and its result decides what follows. -/
theorem asking {task : Task} {second : task.Result → Runner → Action β}
    {next : task.Result → Machine → List Deed}
    (hnext : ∀ a after, sub task machine = .ok a after →
      Scripted sub log (second a) after (next a after)) :
    Scripted sub log (fun runner => runner task >>= fun a => second a runner) machine
      (askThen sub task machine next) := by
  rw [askThen]
  cases hresult : sub task machine with
  | ok a after => exact (ask task).bind hresult (hnext a after hresult)
  | error interrupt after => exact (ask task).bind_error hresult

theorem ite {condition : Prop} [Decidable condition] {yes no : Runner → Action α}
    (hyes : condition → Scripted sub log yes machine script)
    (hno : ¬condition → Scripted sub log no machine further) :
    Scripted sub log (fun runner => if condition then yes runner else no runner) machine
      (if condition then script else further) := by
  split
  · exact hyes ‹_›
  · exact hno ‹_›

theorem within {place : EnvironmentId}
    (h : Scripted sub log action { machine with environment := place } script) :
    Scripted sub log (fun runner => Run.within place (action runner)) machine script := by
  refine ⟨h.turn.within, fun hinner => ?_⟩
  rw [within_eq_put, Outcome.machine_put]
  exact h.replays hinner

theorem nested
    (h : Scripted sub log action { machine with callDepth := machine.callDepth + 1 } script) :
    Scripted sub log (fun runner => Run.nested (action runner)) machine script := by
  refine ⟨h.turn.nested, fun hinner => ?_⟩
  rw [nested_eq_put, Outcome.machine_put]
  exact h.replays hinner

end Scripted

/-! ## Steps follow their scripts -/

section

variable {sub : Runner} {log : Task → Machine → List Event} {machine after : Machine}
  (hsub : SparingRunner .nothing sub) (hresides : Resides .nothing machine)

/-- What a sparing runner leaves and gives. -/
theorem SparingRunner.of_ok {outset : Outset} (hsub : SparingRunner outset sub)
    (hresides : Resides outset machine) {task : Task} {a : task.Result}
    (h : sub task machine = .ok a after) : Resides outset after ∧ task.Gives outset a after := by
  obtain ⟨-, hmeets⟩ := hsub task machine hresides
  rw [h] at hmeets
  exact ⟨hresides.spared hmeets.1, hmeets.2⟩

/-! ### Calls -/

theorem bindParameters_objects (place : EnvironmentId) (parameters : List Token)
    (values : List Value) (heap : Heap) :
    objects (bindParameters place parameters values heap) = objects heap := by
  induction parameters generalizing values heap with
  | nil => rfl
  | cons parameter rest ih =>
      cases values with
      | nil => rfl
      | cons value values => exact ih values _

theorem callClosure_scripted (ready : Machine) (closure : Closure) (values : List Value) :
    Scripted sub log (fun runner => callClosure runner closure values)
      { ready with callDepth := ready.callDepth + 1 }
      [.ask (.executeAll closure.declaration.body) (ready.inCall closure values)] := by
  refine (Scripted.none (.allocate fun _ => rfl)).bind rfl
    ((Scripted.none (.update fun heap => bindParameters_objects _ _ _ heap)).bind rfl ?_)
  refine (Scripted.within (.ask _)).bind_silent fun flow => ?_
  split
  · exact .bind .heap fun _ => .pure _
  · cases flow with
    | normal => exact .pure _
    | returned value => exact .pure _

theorem construct_scripted (ready : Machine) (id : ClassId) (values : List Value) :
    Scripted sub log (fun runner => construct runner id values)
      { ready with callDepth := ready.callDepth + 1 } (invokeScript (.class_ id) values ready) := by
  have hmade : Scripted sub log (fun _ => allocate fun heap => heap.addInstance id)
      { ready with callDepth := ready.callDepth + 1 } [.event (.make id)] :=
    .event True.intro rfl
  obtain ⟨receiver, added, hadded⟩ : ∃ receiver added,
      ready.heap.addInstance id = (receiver, added) := ⟨_, _, rfl⟩
  rw [invokeScript, hadded]
  refine hmade.bind (allocate_of_eq hadded) ((Scripted.none .heap).bind rfl ?_)
  cases hmethod : added.initializer? id with
  | none => exact .none (.pure _)
  | some method =>
      obtain ⟨closure, bound, hbound⟩ : ∃ closure bound,
          added.bindThis method receiver = (closure, bound) := ⟨_, _, rfl⟩
      have hsilent : Silent (allocate fun heap => heap.bindThis method receiver) :=
        .allocate fun _ => rfl
      simp only [hbound]
      refine (Scripted.none hsilent).bind (allocate_of_eq hbound) ?_
      exact (callClosure_scripted { ready with heap := bound } closure values).bind_silent
        fun _ => .pure _

theorem invoke_scripted (ready : Machine) (callable : Heap.Callable) (values : List Value) :
    Scripted sub log (fun runner => invoke runner callable values)
      { ready with callDepth := ready.callDepth + 1 } (invokeScript callable values ready) := by
  cases callable with
  | native native =>
      cases native
      exact .none fun _ => rfl
  | closure closure => exact callClosure_scripted ready closure values
  | class_ id => exact construct_scripted ready id values

theorem evaluateCall_scripted (callee : Expr) (paren : Token) (arguments : List Expr) :
    Scripted sub log (fun runner => evaluateCall runner callee paren arguments) machine
      (askThen sub (.evaluate callee) machine fun callee between =>
        askThen sub (.evaluateAll arguments) between (callScript callee)) := by
  refine .asking fun callee between _ => .asking fun values ready _ => ?_
  refine (Scripted.none .heap).bind rfl ?_
  cases ready.heap.callable? callee with
  | none => exact .none (.fail _ _)
  | some callable =>
      refine (Scripted.none .heap).bind rfl (.ite (fun _ => .none (.fail _ _)) fun _ => ?_)
      refine (Scripted.none .get).bind rfl (.ite (fun _ => .none (.fail _ _)) fun _ => ?_)
      exact .nested (invoke_scripted ready callable values)

/-! ### Expressions -/

include hsub hresides

theorem evaluateSet_scripted (id : NodeId) (object : Expr) (name : Token) (value : Expr) :
    Scripted sub log (fun runner => evaluateSet runner object name value) machine
      (expressionScript sub (.set id object name value) machine) := by
  refine .asking fun target between htarget => ?_
  obtain ⟨hbetween, hheld⟩ := hsub.of_ok hresides htarget
  cases target with
  | instance_ receiver =>
      refine .asking fun value ready hvalue => ?_
      -- the receiver was there when it was evaluated, and so it is still
      obtain ⟨-, hmeets⟩ := hsub (.evaluate _) between hbetween
      rw [hvalue] at hmeets
      have hreceiver : Outset.nothing.Holds ready.heap (.instance_ receiver) :=
        (hheld (.instance_ receiver) rfl).keeps hmeets.1.heap
      exact .event (Nat.lt_of_not_le (Outset.holds_nothing.mp hreceiver)) rfl
  | _ => exact .none (.fail _ _)

theorem evaluate_scripted (e : Expr) :
    Scripted sub log (fun runner => evaluate runner e) machine (expressionScript sub e machine) := by
  cases e with
  | literal id value => exact .none (.pure _)
  | grouping id inner => exact .ask _
  | unary id operator operand =>
      exact (Scripted.ask _).bind_silent fun _ => .of_plain (Plain.unary _ _)
  | binary id first operator second =>
      exact .asking fun _ _ _ =>
        (Scripted.ask _).bind_silent fun _ => .of_plain (Plain.binary _ _ _)
  | logical id first operator second =>
      exact .asking fun _ _ _ => .ite (fun _ => .none (.pure _)) fun _ => .ask _
  | var id name => exact .none (.readVariable _ _)
  | assign id name value =>
      exact (Scripted.ask _).bind_silent fun _ => .bind (.writeVariable _ _ _) fun _ => .pure _
  | call id callee paren arguments => exact evaluateCall_scripted callee paren arguments
  | get id object name =>
      refine (Scripted.ask _).bind_silent fun value => ?_
      cases value with
      | instance_ receiver =>
          refine .bind .heap fun heap => ?_
          split
          · exact .pure _
          · exact .allocate fun _ => rfl
          · exact .fail _ _
      | _ => exact .fail _ _
  | set id object name value => exact evaluateSet_scripted hsub hresides id object name value
  | super_ id keyword method => exact .none (.readSuper _ _ _)
  | this_ id keyword => exact .none (.readVariable _ _)

omit hsub hresides

/-! ### Statements -/

theorem evaluateOpt_scripted (value : Option Expr) :
    Scripted sub log (fun runner => evaluateOpt runner value) machine
      (optionalScript value machine) := by
  cases value with
  | none => exact .none (.pure _)
  | some value => exact .ask _

theorem evaluateSuperclass_eq (sub : Runner) (name : Token) (superclass : Expr)
    (machine : Machine) :
    evaluateSuperclass sub name (some superclass) machine =
      match sub (.evaluate superclass) machine with
      | .ok (.class_ id) after => .ok (some id) after
      | .ok _ after => .error (.fault ⟨.superclassNotClass, superclassToken name superclass⟩) after
      | .error interrupt after => .error interrupt after := by
  rw [evaluateSuperclass, bind_eq_andThen]
  cases sub (.evaluate superclass) machine with
  | ok value after => cases value <;> rfl
  | error interrupt after => rfl

theorem executeClass_scripted (name : Token) (superclass : Option Expr)
    (methods : List FunctionDecl) :
    Scripted sub log (fun runner => executeClass runner name superclass methods) machine
      (classScript sub name superclass methods machine) := by
  have hdeclare (parent : Option ClassId) (place : EnvironmentId) (machine : Machine) :
      Scripted sub log (fun _ => do
          let id ← allocate fun heap =>
            heap.addClass ⟨name.lexeme, parent, methodTable place methods⟩
          assign (← here) name (.class_ id)) machine
        [.event (.declare ⟨name.lexeme, parent, place, methods⟩)] :=
    .event True.intro (Silent.bind .here (fun outer =>
      .assign outer name (.class_ machine.heap.classes.size)) _)
  refine (Scripted.none (.define _ _)).bind rfl ?_
  cases superclass with
  | none =>
      exact (Scripted.none (.pure _)).bind rfl
        ((Scripted.none (.methodEnvironment _ _)).bind rfl (hdeclare none _ _))
  | some superclass =>
      have hvalue : Scripted sub log (fun runner => evaluateSuperclass runner name (some superclass))
          (machine.naming name) [.ask (.evaluate superclass) (machine.naming name)] := by
        refine (Scripted.ask _).bind_silent fun value => ?_
        cases value <;> first | exact .pure _ | exact .fail _ _
      have hend := evaluateSuperclass_eq sub name superclass (machine.naming name)
      simp only [askThen]
      cases hresult : sub (.evaluate superclass) (machine.naming name) with
      | error interrupt evaluated =>
          rw [hresult] at hend
          exact hvalue.bind_error hend
      | ok value evaluated =>
          rw [hresult] at hend
          cases value with
          | class_ parent =>
              exact hvalue.bind hend
                ((Scripted.none (.methodEnvironment _ _)).bind rfl (hdeclare (some parent) _ _))
          | _ => exact hvalue.bind_error hend

theorem execute_scripted (s : Stmt) :
    Scripted sub log (fun runner => execute runner s) machine (statementScript sub s machine) := by
  cases s with
  | expression value => exact (Scripted.ask _).bind_silent fun _ => .pure _
  | print value =>
      exact (Scripted.ask _).bind_silent fun _ => .bind .heap fun _ =>
        .bind (.settle _) fun _ => .pure _
  | var name value =>
      exact (evaluateOpt_scripted value).bind_silent fun _ => .bind (.define _ _) fun _ => .pure _
  | block body =>
      exact (Scripted.none .here).bind rfl
        ((Scripted.none (.allocate fun _ => rfl)).bind rfl (.within (.ask _)))
  | function declaration =>
      have hadded (place : EnvironmentId) :
          Silent (allocate fun heap => heap.addFunction ⟨declaration, place, false⟩) :=
        .allocate fun _ => rfl
      exact (Scripted.none .here).bind_silent fun place => .bind (hadded place) fun _ =>
        .bind (.define _ _) fun _ => .pure _
  | class_ name superclass methods =>
      exact (executeClass_scripted name superclass methods).bind_silent fun _ => .pure _
  | ifThen condition thenBranch =>
      exact .asking fun _ _ _ => .ite (fun _ => .ask _) fun _ => .none (.pure _)
  | ifElse condition thenBranch elseBranch =>
      exact .asking fun _ _ _ => .ite (fun _ => .ask _) fun _ => .ask _
  | while_ condition body =>
      refine .asking fun _ _ _ => .ite (fun _ => .asking fun flow _ _ => ?_) fun _ => .none (.pure _)
      cases flow with
      | normal => exact .ask _
      | returned value => exact .none (.pure _)
  | return_ keyword value => exact (evaluateOpt_scripted value).bind_silent fun _ => .pure _

include hsub hresides

/-- Every step follows its script. -/
theorem step_scripted (task : Task) :
    Scripted sub log (fun runner => task.step runner) machine (task.script sub machine) := by
  cases task with
  | evaluate e => exact evaluate_scripted hsub hresides e
  | evaluateAll es =>
      cases es with
      | nil => exact .none (.pure _)
      | cons e rest =>
          exact .asking fun _ _ _ => (Scripted.ask _).bind_silent fun _ => .pure _
  | execute s => exact execute_scripted s
  | executeAll statements =>
      cases statements with
      | nil => exact .none (.pure _)
      | cons s rest =>
          refine .asking fun flow _ _ => ?_
          cases flow with
          | normal => exact .ask _
          | returned value => exact .none (.pure _)

end

end Lox.Run
