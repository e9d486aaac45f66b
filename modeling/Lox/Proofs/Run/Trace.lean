import Lox.Proofs.Heap.Change
import Lox.Proofs.Run.Contract

/-!
# What a step does

The step of a task does little by itself: it changes the heap, asks the runner for tasks inside it,
one after the other, and ends with a result or with an error of its own. `Traced` says so of an
outcome that depends on the runner, and says which tasks are asked for, and with which machines.
-/

namespace Lox.Run

open Scope (Distances)

variable {α β : Type}

/-- Goes on with the result of an outcome. -/
def Outcome.andThen (outcome : Outcome α) (next : α → Machine → Outcome β) : Outcome β :=
  match outcome with
  | .ok a after => next a after
  | .error interrupt after => .error interrupt after

theorem bind_eq_andThen (action : Action α) (next : α → Action β) (machine : Machine) :
    (action >>= next) machine = Outcome.andThen (action machine) next := by
  simp only [Bind.bind, EStateM.bind]
  cases action machine <;> rfl

/-! ## What is inside a task -/

/-- The tasks that an expression asks for, but for the body of a callee. -/
def expressionParts : Expr → List Task
  | .literal _ _ | .var _ _ | .super_ _ _ _ | .this_ _ _ => []
  | .grouping _ inner | .unary _ _ inner | .assign _ _ inner | .get _ inner _ => [.evaluate inner]
  | .binary _ first _ second | .logical _ first _ second | .set _ first _ second =>
      [.evaluate first, .evaluate second]
  | .call _ callee _ arguments => [.evaluate callee, .evaluateAll arguments]

/-- The tasks that a statement asks for. A loop asks for itself. -/
def statementParts : Stmt → List Task
  | .expression value | .print value => [.evaluate value]
  | .var _ value | .class_ _ value _ | .return_ _ value => value.toList.map .evaluate
  | .block body => [.executeAll body]
  | .function _ => []
  | .ifThen condition thenBranch => [.evaluate condition, .execute thenBranch]
  | .ifElse condition thenBranch elseBranch =>
      [.evaluate condition, .execute thenBranch, .execute elseBranch]
  | .while_ condition body =>
      [.evaluate condition, .execute body, .execute (.while_ condition body)]

namespace Task

/-- The tasks that a task asks for, but for the body of a callee. -/
def parts : Task → List Task
  | evaluate e => expressionParts e
  | evaluateAll [] => []
  | evaluateAll (e :: rest) => [evaluate e, evaluateAll rest]
  | execute s => statementParts s
  | executeAll [] => []
  | executeAll (s :: rest) => [execute s, executeAll rest]

/-- A call expression asks for the body of its callee as well. -/
inductive Calls : Task → Task → Prop where
  | body {id : NodeId} {callee : Expr} {paren : Token} {arguments : List Expr} {body : List Stmt} :
      Calls (evaluate (.call id callee paren arguments)) (executeAll body)

/-- The names that a task binds by itself. -/
def names : Task → List String
  | evaluate (.assign _ name _) => [name.lexeme]
  | execute (.var name _) | execute (.class_ name _ _) => [name.lexeme]
  | execute (.function declaration) => [declaration.name.lexeme]
  | _ => []

/-- The functions that a task makes by itself. -/
def declarations : Task → List FunctionDecl
  | execute (.function declaration) => [declaration]
  | execute (.class_ _ _ methods) => methods
  | _ => []

/-- The errors that a task can end with by itself. -/
def faults : Task → List RuntimeError
  | evaluate (.unary _ operator _) =>
      [⟨.operandNotNumber, operator⟩, ⟨.invalidUnaryOperator, operator⟩]
  | evaluate (.binary _ _ operator _) =>
      [⟨.operandsNotNumbers, operator⟩, ⟨.operandsNotAddable, operator⟩,
        ⟨.invalidBinaryOperator, operator⟩]
  | evaluate (.var _ name) | evaluate (.assign _ name _) | evaluate (.this_ _ name) =>
      [Heap.undefined name]
  | evaluate (.call _ _ paren _) =>
      [⟨.notCallable, paren⟩, ⟨.notEnoughArguments, paren⟩, ⟨.stackOverflow, paren⟩]
  | evaluate (.get _ _ name) => [⟨.undefinedProperty name.lexeme, name⟩, ⟨.noProperties, name⟩]
  | evaluate (.set _ _ name _) => [⟨.noFields, name⟩]
  | evaluate (.super_ _ keyword method) =>
      [⟨.unresolvedSuper, keyword⟩, ⟨.unresolvedThis, keyword⟩,
        ⟨.undefinedProperty method.lexeme, method⟩]
  | execute (.class_ name (some superclass) _) =>
      [⟨.superclassNotClass, superclassToken name superclass⟩, Heap.undefined name]
  | execute (.class_ name none _) => [Heap.undefined name]
  | _ => []

end Task

/-- Pieces of programs that are closed under taking parts: which tasks they are, which names they
bind and which functions they declare. -/
structure Code where
  task : Task → Prop
  name : String → Prop
  declaration : FunctionDecl → Prop
  part : ∀ {outer inner : Task}, task outer → inner ∈ outer.parts → task inner
  names : ∀ {outer : Task}, task outer → ∀ bound ∈ outer.names, name bound
  declarations : ∀ {outer : Task}, task outer → ∀ made ∈ outer.declarations, declaration made
  body : ∀ {made : FunctionDecl}, declaration made → task (.executeAll made.body)
  parameters : ∀ {made : FunctionDecl}, declaration made →
    ∀ parameter ∈ made.parameters, name parameter.lexeme
  empty : declaration default

/-- What the changes of a heap keep to when code runs. Each environment of `super` is recorded. -/
def Code.rules (code : Code) (recorded : EnvironmentId → List FunctionDecl → ClassId → Prop) :
    Heap.Rules :=
  ⟨code.name, code.declaration, recorded⟩

/-- All code. -/
def Code.any : Code where
  task _ := True
  name _ := True
  declaration _ := True
  part _ _ := True.intro
  names _ _ _ := True.intro
  declarations _ _ _ := True.intro
  body _ := True.intro
  parameters _ _ _ := True.intro
  empty := True.intro

/-! ## Machines during a step -/

/-- What a task leaves as it found it. -/
structure Control where
  environment : EnvironmentId
  callDepth : Nat
  distances : Distances
  sink : Sink

/-- The part of a machine that a task leaves as it found it. -/
def Machine.control (machine : Machine) : Control :=
  ⟨machine.environment, machine.callDepth, machine.distances, machine.sink⟩

/-- The second machine is the first one after some changes of the heap. -/
structure Evolves (rules : Heap.Rules) (machine after : Machine) : Prop where
  control : after.control = machine.control
  heap : Heap.Changes rules machine.heap after.heap

namespace Evolves

variable {rules : Heap.Rules} {a b c : Machine}

theorem refl (machine : Machine) : Evolves rules machine machine :=
  ⟨rfl, .refl _⟩

theorem trans (first : Evolves rules a b) (second : Evolves rules b c) : Evolves rules a c :=
  ⟨second.control.trans first.control, first.heap.trans second.heap⟩

theorem callDepth (h : Evolves rules a b) : b.callDepth = a.callDepth :=
  congrArg Control.callDepth h.control

theorem environment (h : Evolves rules a b) : b.environment = a.environment :=
  congrArg Control.environment h.control

theorem distances (h : Evolves rules a b) : b.distances = a.distances :=
  congrArg Control.distances h.control

end Evolves

/-- A task of the code may ask for the task `inner` with the machine `start`. The body of a callee
runs with one more call under way, if there are not too many. -/
structure Permits (code : Code) (task : Task) (machine : Machine) (inner : Task)
    (start : Machine) : Prop where
  code : code.task inner
  distances : start.distances = machine.distances
  depth : inner ∈ task.parts ∧ start.callDepth = machine.callDepth ∨
    task.Calls inner ∧ machine.callDepth < maxCallDepth ∧
      start.callDepth = machine.callDepth + 1

/-- A step of a task from a machine, with a runner for the tasks inside it. The code that may run
and the record of the environments of `super` are fixed. -/
structure Turn where
  code : Code
  recorded : EnvironmentId → List FunctionDecl → ClassId → Prop
  sub : Runner
  task : Task
  machine : Machine

namespace Turn

/-- What the changes of the heap keep to. -/
def rules (turn : Turn) : Heap.Rules :=
  turn.code.rules turn.recorded

/-- The step may ask for the task `inner` with the machine `start`. -/
abbrev Permits (turn : Turn) : (inner : Task) → (start : Machine) → Prop :=
  Run.Permits turn.code turn.task turn.machine

/-- The step may end for this reason by itself. -/
def Faults (turn : Turn) : Interrupt → Prop
  | .fault error => error ∈ turn.task.faults
  | .refused _ => True
  | .outOfFuel => False

end Turn

/-! ## Traced outcomes -/

/-- Asks for a task, and goes on with its result. If there is none, it ends as the task ended, with
the machine put back by `leave`. -/
def asking (inner : Task) (start : Machine) (leave : Machine → Machine)
    (next : inner.Result → Machine → Runner → Outcome α) (runner : Runner) : Outcome α :=
  match runner inner start with
  | .ok a after => next a after runner
  | .error interrupt after => .error interrupt (leave after)

/-- From the heap on, the outcome comes about as in a step: its machines have the control given, and
a result is as expected. -/
inductive Traced (turn : Turn) (control : Control) (expect : α → Machine → Prop) :
    Heap → (Runner → Outcome α) → Prop where
  | give {heap : Heap} {a : α} {after : Machine} :
      Heap.Changes turn.rules heap after.heap → after.control = control → expect a after →
        Traced turn control expect heap fun _ => .ok a after
  | halt {heap : Heap} {interrupt : Interrupt} {after : Machine} :
      Heap.Changes turn.rules heap after.heap → after.control = control →
        turn.Faults interrupt → Traced turn control expect heap fun _ => .error interrupt after
  | ask {heap : Heap} {inner : Task} {start : Machine} {leave : Machine → Machine}
      {next : inner.Result → Machine → Runner → Outcome α} :
      Heap.Changes turn.rules heap start.heap → turn.Permits inner start →
        (∀ after, after.control = start.control →
          (leave after).control = control ∧ (leave after).heap = after.heap) →
        (∀ a after, turn.sub inner start = .ok a after → Evolves turn.rules start after →
          Traced turn control expect after.heap (next a after)) →
        Traced turn control expect heap (asking inner start leave next)

namespace Traced

variable {turn : Turn} {control : Control} {expect expect' : α → Machine → Prop}
  {heap later : Heap} {outcome : Runner → Outcome α}

theorem mono (h : Traced turn control expect heap outcome)
    (hexpect : ∀ a after, expect a after → expect' a after) :
    Traced turn control expect' heap outcome := by
  induction h with
  | give hheap hcontrol hresult => exact .give hheap hcontrol (hexpect _ _ hresult)
  | halt hheap hcontrol hfault => exact .halt hheap hcontrol hfault
  | ask hheap hpermits hleave _ ih => exact .ask hheap hpermits hleave ih

/-- The heap may have changed before. -/
theorem earlier (h : Traced turn control expect later outcome)
    (hheap : Heap.Changes turn.rules heap later) : Traced turn control expect heap outcome := by
  cases h with
  | give hchanges hcontrol hresult => exact .give (hheap.trans hchanges) hcontrol hresult
  | halt hchanges hcontrol hfault => exact .halt (hheap.trans hchanges) hcontrol hfault
  | ask hchanges hpermits hleave hnext =>
      exact .ask (hheap.trans hchanges) hpermits hleave hnext

/-- Another outcome may follow. -/
theorem bind {second : α → Machine → Runner → Outcome β} {expect' : β → Machine → Prop}
    (h : Traced turn control expect heap outcome)
    (hsecond : ∀ a after, Heap.Changes turn.rules heap after.heap → after.control = control →
      expect a after → Traced turn control expect' after.heap (second a after)) :
    Traced turn control expect' heap fun runner =>
      (outcome runner).andThen fun a after => second a after runner := by
  induction h with
  | give hheap hcontrol hresult => exact (hsecond _ _ hheap hcontrol hresult).earlier hheap
  | halt hheap hcontrol hfault => exact .halt hheap hcontrol hfault
  | @ask heap inner start leave next hheap hpermits hleave _ ih =>
      have hrest : Traced turn control expect' heap (asking inner start leave fun a after runner =>
          (next a after runner).andThen fun b last => second b last runner) :=
        .ask hheap hpermits hleave fun a after hanswer hevolves =>
          ih a after hanswer hevolves fun b last hchanges hcontrol hresult =>
            hsecond b last ((hheap.trans hevolves.heap).trans hchanges) hcontrol hresult
      refine cast (congrArg _ (funext fun runner => ?_)) hrest
      simp only [asking]
      cases runner inner start <;> rfl

/-- The machine may be put back at the end. -/
theorem leave {control' : Control} {leave : Machine → Machine}
    (h : Traced turn control expect heap outcome)
    (hleave : ∀ after, after.control = control →
      (leave after).control = control' ∧ (leave after).heap = after.heap) :
    Traced turn control' (fun a after => ∃ inner, expect a inner ∧ after = leave inner) heap
      fun runner =>
        match outcome runner with
        | .ok a after => .ok a (leave after)
        | .error interrupt after => .error interrupt (leave after) := by
  induction h with
  | give hheap hcontrol hresult =>
      obtain ⟨hback, hsame⟩ := hleave _ hcontrol
      exact .give (by rwa [hsame]) hback ⟨_, hresult, rfl⟩
  | halt hheap hcontrol hfault =>
      obtain ⟨hback, hsame⟩ := hleave _ hcontrol
      exact .halt (by rwa [hsame]) hback hfault
  | @ask heap inner start back next hheap hpermits hback _ ih =>
      have hboth : ∀ after, after.control = start.control →
          (leave (back after)).control = control' ∧ (leave (back after)).heap = after.heap := by
        intro after hcontrol
        obtain ⟨hinner, hsame⟩ := hback after hcontrol
        obtain ⟨houter, hsame'⟩ := hleave _ hinner
        exact ⟨houter, hsame'.trans hsame⟩
      have hrest : Traced turn control' (fun a after => ∃ inner, expect a inner ∧ after = leave inner)
          heap (asking inner start (leave ∘ back) fun a after runner =>
            match next a after runner with
            | .ok b last => .ok b (leave last)
            | .error interrupt last => .error interrupt (leave last)) :=
        .ask hheap hpermits hboth ih
      refine cast (congrArg _ (funext fun runner => ?_)) hrest
      simp only [asking]
      cases runner inner start <;> rfl

end Traced

/-! ## Actions -/

/-- From a machine, the action comes about as in a step. -/
def Does (turn : Turn) (action : Runner → Action α) (machine : Machine)
    (expect : α → Machine → Prop) : Prop :=
  Traced turn machine.control expect machine.heap fun runner => action runner machine

namespace Does

variable {turn : Turn} {machine after : Machine} {action : Runner → Action α}
  {expect expect' : α → Machine → Prop}

theorem mono (h : Does turn action machine expect)
    (hexpect : ∀ a after, expect a after → expect' a after) : Does turn action machine expect' :=
  Traced.mono h hexpect

theorem bind {second : α → Runner → Action β} {expect' : β → Machine → Prop}
    (h : Does turn action machine expect)
    (hsecond : ∀ a after, Evolves turn.rules machine after → expect a after →
      Does turn (second a) after expect') :
    Does turn (fun runner => action runner >>= fun a => second a runner) machine expect' := by
  simp only [Does, bind_eq_andThen]
  refine Traced.bind h fun a after hheap hcontrol hresult => ?_
  have hnext := hsecond a after ⟨hcontrol, hheap⟩ hresult
  rwa [Does, hcontrol] at hnext

/-- The runner is asked for a task, and what it gives is known. -/
theorem ask {inner : Task} (h : turn.Permits inner machine) :
    Does turn (fun runner => runner inner) machine
      fun a after => turn.sub inner machine = .ok a after := by
  have hask : Traced turn machine.control (fun a after => turn.sub inner machine = .ok a after)
      machine.heap (asking inner machine id fun a after _ => .ok a after) :=
    .ask (.refl machine.heap) h (fun _ hcontrol => ⟨hcontrol, rfl⟩)
      fun a after hanswer hevolves => .give (.refl _) hevolves.control hanswer
  have hsame : asking inner machine id (fun a after _ => .ok a after) =
      fun runner => runner inner machine := by
    funext runner
    simp only [asking]
    cases runner inner machine <;> rfl
  rwa [hsame] at hask

theorem pure {a : α} (h : expect a machine) :
    Does turn (fun _ => Pure.pure a) machine expect :=
  .give (.refl _) rfl h

theorem fail {fault : RuntimeFault} {token : Token}
    (h : (⟨fault, token⟩ : RuntimeError) ∈ turn.task.faults) :
    Does turn (fun _ => Run.fail fault token) machine expect :=
  .halt (.refl _) rfl h

theorem throw {error : RuntimeError} (h : error ∈ turn.task.faults) :
    Does turn (fun _ => MonadExcept.throw (.fault error)) machine expect :=
  .halt (.refl _) rfl h

theorem ite {condition : Prop} [Decidable condition] {yes no : Runner → Action α}
    (hyes : condition → Does turn yes machine expect)
    (hno : ¬condition → Does turn no machine expect) :
    Does turn (fun runner => if condition then yes runner else no runner) machine expect := by
  split
  · exact hyes ‹_›
  · exact hno ‹_›

theorem heap : Does turn (fun _ => Run.heap) machine
    fun heap after => heap = machine.heap ∧ after = machine :=
  .give (.refl _) rfl ⟨rfl, rfl⟩

theorem here : Does turn (fun _ => Run.here) machine
    fun place after => place = machine.environment ∧ after = machine :=
  .give (.refl _) rfl ⟨rfl, rfl⟩

theorem get : Does turn (fun _ => MonadState.get) machine
    fun state after => state = machine ∧ after = machine :=
  .give (.refl _) rfl ⟨rfl, rfl⟩

theorem allocate {change : Heap → α × Heap}
    (h : Heap.Changes turn.rules machine.heap (change machine.heap).2) :
    Does turn (fun _ => Run.allocate change) machine fun a after =>
      a = (change machine.heap).1 ∧ after = { machine with heap := (change machine.heap).2 } :=
  .give h rfl ⟨rfl, rfl⟩

theorem update {change : Heap → Heap}
    (h : Heap.Changes turn.rules machine.heap (change machine.heap)) :
    Does turn (fun _ => Run.update change) machine fun _ after =>
      after = { machine with heap := change machine.heap } :=
  .give h rfl rfl

theorem within {place : EnvironmentId}
    (h : Does turn action { machine with environment := place } expect) :
    Does turn (fun runner => Run.within place (action runner)) machine fun a after =>
      ∃ inner, expect a inner ∧ after = { inner with environment := machine.environment } := by
  refine Traced.leave h fun after hcontrol => ⟨?_, rfl⟩
  simp only [Machine.control, Control.mk.injEq] at hcontrol ⊢
  exact ⟨trivial, hcontrol.2⟩

theorem nested (h : Does turn action { machine with callDepth := machine.callDepth + 1 } expect) :
    Does turn (fun runner => Run.nested (action runner)) machine fun a after =>
      ∃ inner, expect a inner ∧ after = { inner with callDepth := inner.callDepth - 1 } := by
  refine Traced.leave h fun after hcontrol => ⟨?_, rfl⟩
  simp only [Machine.control, Control.mk.injEq] at hcontrol ⊢
  obtain ⟨henvironment, hdepth, hdistances⟩ := hcontrol
  exact ⟨henvironment, by omega, hdistances⟩

/-- A binding in the current environment. -/
theorem define {name : String} (h : turn.code.name name) (value : Value) :
    Does turn (fun _ => Run.define name value) machine fun _ after =>
      after = { machine with heap := machine.heap.define machine.environment name value } :=
  .give (Heap.Change.define machine.environment value h).changes rfl rfl

/-- A binding that is replaced on the chain of an environment. -/
theorem assign (place : EnvironmentId) {name : Token} (value : Value)
    (h : turn.code.name name.lexeme) (hfault : Heap.undefined name ∈ turn.task.faults) :
    Does turn (fun _ => Run.assign place name value) machine fun _ _ => True := by
  refine heap.bind ?_
  rintro _ after hevolves ⟨rfl, rfl⟩
  cases after.heap.binder? place name.lexeme with
  | some binder =>
      exact (update (Heap.Change.define binder value h).changes).mono fun _ _ _ => True.intro
  | none => exact throw hfault

/-- The output is no matter of the heap. -/
theorem settle (offer : Sink → Output → Option String × Output) :
    Does turn (fun _ => Run.settle offer) machine fun _ _ => True := by
  rw [Does]
  simp only [Run.settle]
  split
  · exact .give (.refl _) rfl True.intro
  · exact .halt (.refl _) rfl True.intro

end Does

/-! ## What follows -/

/-- The rest of an outcome once some tasks that it asked for have given results. -/
inductive Rest (sub : Runner) (outcome : Runner → Outcome α) : (Runner → Outcome α) → Prop where
  | whole : Rest sub outcome outcome
  | answer {inner : Task} {start : Machine} {leave : Machine → Machine}
      {next : inner.Result → Machine → Runner → Outcome α} {a : inner.Result} {after : Machine} :
      Rest sub outcome (asking inner start leave next) → sub inner start = .ok a after →
        Rest sub outcome (next a after)

/-- A runner that does otherwise in one case only either comes to it or gives the rest. -/
theorem Rest.eq_or_interrupted {sub other : Runner} {outcome rest : Runner → Outcome α}
    (h : Rest sub outcome rest) {inner : Task} {start : Machine} {interrupt : Interrupt}
    (hsame : ∀ task machine, (task, machine) ≠ (inner, start) →
      other task machine = sub task machine)
    (hinner : other inner start = .error interrupt start) :
    outcome other = rest other ∨ ∃ after, outcome other = .error interrupt after := by
  induction h with
  | whole => exact .inl rfl
  | @answer asked moment leave next a after _ hanswer ih =>
      obtain ih | ih := ih
      · by_cases hcase : (asked, moment) = (inner, start)
        · cases hcase
          refine .inr ⟨leave start, ?_⟩
          rw [ih, asking, hinner]
        · refine .inl ?_
          rw [ih, asking, hsame _ _ hcase, hanswer]
      · exact .inr ih

/-- A step asks for each task to which its rest comes. -/
theorem Rest.asks {sub : Runner} {task inner : Task} {machine start : Machine}
    {leave : Machine → Machine} {next : inner.Result → Machine → Runner → Outcome task.Result}
    (h : Rest sub (fun runner => task.step runner machine) (asking inner start leave next)) :
    Asks sub task machine inner start := by
  refine asks_of_interrupt fun other interrupt hsame hinner => ?_
  obtain heq | hinterrupted := h.eq_or_interrupted hsame hinner
  · exact ⟨leave start, by rw [heq, asking, hinner]⟩
  · exact hinterrupted

end Lox.Run
