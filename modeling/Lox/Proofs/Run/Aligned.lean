import Lox.Proofs.Heap.Boxed
import Lox.Proofs.Run.Paired
import Lox.Proofs.Scope.Boxed

/-!
# Runs with extra blocks

Two machines do one thing, the second one in a program with extra blocks and in the environments of
these. As the extra blocks take fuel, one of the two runs may lack it where the other goes on.
`Aligned` says of two actions that they end alike from such machines, unless that run lacks fuel.
-/

namespace Lox.Run

open Scope (Distances)

variable {α β γ δ : Type}

/-! ## Machines and tasks -/

/-- One of two runs. -/
inductive Side where
  | first
  | second

/-- What is fixed while two runs are compared: the distances that they know, and which of them may
lack fuel. -/
structure Contrast where
  distances : Distances
  distances' : Distances
  lacking : Side

/-- What is demanded of the uses and the extra blocks in what the machines do. -/
def Contrast.demands (contrast : Contrast) : Demands :=
  .widened contrast.distances contrast.distances'

/-- Machines of which the second one is in the environments of extra blocks as well. -/
structure Machine.Boxed (contrast : Contrast) (places : Places) (layers : Layers)
    (machine machine' : Machine) : Prop where
  heap : machine.heap.Boxed contrast.demands places machine'.heap
  around : machine.heap.Around machine'.heap places layers machine.environment machine'.environment
  callDepth : machine'.callDepth = machine.callDepth
  distances : ∀ node : NodeId, machine.distances[node]? = contrast.distances[node]?
  distances' : ∀ node : NodeId, machine'.distances[node]? = contrast.distances'[node]?
  clock : machine'.clock = machine.clock
  clockReads : machine'.clockReads = machine.clockReads
  sink : machine'.sink = machine.sink
  output : machine'.output = machine.output

/-- The second machine knows the widened distances. -/
theorem Machine.Boxed.widened {contrast : Contrast} {places : Places} {layers : Layers}
    {machine machine' : Machine} (h : machine.Boxed contrast places layers machine')
    {kind : UseKind} {name : Token} {node : NodeId}
    (huse : contrast.demands.use layers ⟨kind, name, node⟩) :
    machine'.distances[node]? = machine.distances[node]?.map layers.widen := by
  rw [h.distances, h.distances']
  exact huse.distance

/-- Tasks of which the second one has extra blocks. What declares a name in the scope around it is
not directly in an extra block. -/
inductive Task.Boxed (demands : Demands) (layers : Layers) : Task → Task → Prop where
  | evaluate {e : Expr} : demands.Uses layers e.uses →
      Task.Boxed demands layers (.evaluate e) (.evaluate e)
  | evaluateAll {es : List Expr} : demands.Uses layers (Expr.usesAll es) →
      Task.Boxed demands layers (.evaluateAll es) (.evaluateAll es)
  | execute {s s' : Stmt} : Stmt.Boxed demands layers s s' →
      (s.declares ≠ [] → layers.Shared) → Task.Boxed demands layers (.execute s) (.execute s')
  | executeAll {statements statements' : List Stmt} :
      Stmt.BoxedAll demands layers statements statements' → layers.Shared →
        Task.Boxed demands layers (.executeAll statements) (.executeAll statements')

/-! ## Outcomes side by side -/

/-- Both outcomes are as expected, or both end for one reason with one output, or the run that may
lack fuel lacks it. -/
inductive EndAlike (lacking : Side) (expect : α → β → Machine → Machine → Prop) :
    Outcome α → Outcome β → Prop where
  | give {a : α} {a' : β} {after after' : Machine} : expect a a' after after' →
      EndAlike lacking expect (.ok a after) (.ok a' after')
  | halt (interrupt : Interrupt) {after after' : Machine} : after'.output = after.output →
      EndAlike lacking expect (.error interrupt after) (.error interrupt after')
  | lacks {after : Machine} {outcome' : Outcome β} : lacking = .first →
      EndAlike lacking expect (.error .outOfFuel after) outcome'
  | lacks' {outcome : Outcome α} {after' : Machine} : lacking = .second →
      EndAlike lacking expect outcome (.error .outOfFuel after')

theorem EndAlike.mono {lacking : Side} {expect expect' : α → β → Machine → Machine → Prop}
    {outcome : Outcome α} {outcome' : Outcome β} (h : EndAlike lacking expect outcome outcome')
    (hexpect : ∀ a a' after after', expect a a' after after' → expect' a a' after after') :
    EndAlike lacking expect' outcome outcome' := by
  cases h with
  | give hgiven => exact .give (hexpect _ _ _ _ hgiven)
  | halt interrupt houtput => exact .halt interrupt houtput
  | lacks hlacking => exact .lacks hlacking
  | lacks' hlacking => exact .lacks' hlacking

/-- The machines may be changed at the end, if the outputs stay what they are. -/
theorem EndAlike.put {lacking : Side} {expect expect' : α → β → Machine → Machine → Prop}
    {outcome : Outcome α} {outcome' : Outcome β} (h : EndAlike lacking expect outcome outcome')
    {change change' : Machine → Machine} (houtput : ∀ after, (change after).output = after.output)
    (houtput' : ∀ after, (change' after).output = after.output)
    (hexpect : ∀ a a' after after', expect a a' after after' →
      expect' a a' (change after) (change' after')) :
    EndAlike lacking expect' (outcome.put change) (outcome'.put change') := by
  cases h with
  | give hgiven => exact .give (hexpect _ _ _ _ hgiven)
  | halt interrupt hsame => exact .halt interrupt (by rw [houtput, houtput', hsame])
  | lacks hlacking => exact .lacks hlacking
  | lacks' hlacking => exact .lacks' hlacking

/-- Machines that come about from two machines, in the environments in which these are. -/
structure Advance (contrast : Contrast) (layers : Layers) (places : Places)
    (machine machine' : Machine) (later : Places) (after after' : Machine) : Prop where
  onwards : machine.heap.Onwards machine'.heap places after.heap after'.heap later
  environment : after.environment = machine.environment
  boxed : after.Boxed contrast later layers after'

theorem Advance.trans {contrast : Contrast} {layers : Layers} {places later latest : Places}
    {machine machine' after after' last last' : Machine}
    (first : Advance contrast layers places machine machine' later after after')
    (second : Advance contrast layers later after after' latest last last') :
    Advance contrast layers places machine machine' latest last last' :=
  ⟨first.onwards.trans second.onwards, second.environment.trans first.environment, second.boxed⟩

/-- From the two machines, the two actions end alike. -/
def Aligned (contrast : Contrast) (layers : Layers) (places : Places) (machine machine' : Machine)
    (action : Action α) (action' : Action β)
    (expect : Places → α → β → Machine → Machine → Prop) : Prop :=
  EndAlike contrast.lacking
    (fun a a' after after' => ∃ later,
      Advance contrast layers places machine machine' later after after' ∧
        expect later a a' after after')
    (action machine) (action' machine')

/-- The actions give the same. -/
def Same (_ : Places) (a a' : α) (_ _ : Machine) : Prop :=
  a = a'

/-- Two runners do tasks alike of which the second one has extra blocks. -/
def RunsAligned (contrast : Contrast) (sub sub' : Runner) : Prop :=
  ∀ layers places task task' machine machine', Task.Boxed contrast.demands layers task task' →
    Machine.Boxed contrast places layers machine machine' →
      Aligned contrast layers places machine machine' (sub task) (sub' task')
        fun _ a a' _ _ => Task.Alike task task' a a'

variable {contrast : Contrast} {layers : Layers} {places : Places} {machine machine' : Machine}

namespace Aligned

variable {action : Action α} {action' : Action β}
  {expect expect' : Places → α → β → Machine → Machine → Prop}

theorem mono (h : Aligned contrast layers places machine machine' action action' expect)
    (hexpect : ∀ later a a' after after', expect later a a' after after' →
      expect' later a a' after after') :
    Aligned contrast layers places machine machine' action action' expect' :=
  EndAlike.mono h fun _ _ _ _ ⟨later, hadvance, hgiven⟩ =>
    ⟨later, hadvance, hexpect _ _ _ _ _ hgiven⟩

theorem bind {second : α → Action γ} {second' : β → Action δ}
    {expect' : Places → γ → δ → Machine → Machine → Prop}
    (h : Aligned contrast layers places machine machine' action action' expect)
    (hsecond : ∀ later a a' after after',
      Advance contrast layers places machine machine' later after after' →
        expect later a a' after after' →
          Aligned contrast layers later after after' (second a) (second' a') expect') :
    Aligned contrast layers places machine machine' (action >>= second) (action' >>= second')
      expect' := by
  unfold Aligned at h ⊢
  simp only [Bind.bind, EStateM.bind]
  generalize action machine = outcome at h ⊢
  generalize action' machine' = outcome' at h ⊢
  cases h with
  | give hgiven =>
      obtain ⟨later, hadvance, hexpect⟩ := hgiven
      refine EndAlike.mono (hsecond _ _ _ _ _ hadvance hexpect) ?_
      rintro b b' last last' ⟨latest, hlast, hresult⟩
      exact ⟨latest, hadvance.trans hlast, hresult⟩
  | halt interrupt houtput => exact .halt interrupt houtput
  | lacks hlacking => exact .lacks hlacking
  | lacks' hlacking => exact .lacks' hlacking

section

variable (hmachine : machine.Boxed contrast places layers machine')

include hmachine

/-- Nothing has happened yet. -/
theorem stay : Advance contrast layers places machine machine' places machine machine' :=
  ⟨.refl _ _ _, rfl, hmachine⟩

theorem pure {a : α} {a' : β} (h : expect places a a' machine machine') :
    Aligned contrast layers places machine machine' (Pure.pure a) (Pure.pure a') expect :=
  .give ⟨places, stay hmachine, h⟩

theorem throw (interrupt : Interrupt) :
    Aligned contrast layers places machine machine' (MonadExcept.throw interrupt : Action α)
      (MonadExcept.throw interrupt : Action β) expect :=
  .halt interrupt hmachine.output

theorem fail (fault : RuntimeFault) (token : Token) :
    Aligned contrast layers places machine machine' (Run.fail fault token : Action α)
      (Run.fail fault token : Action β) expect :=
  throw hmachine _

theorem heap :
    Aligned contrast layers places machine machine' Run.heap Run.heap
      fun later heap heap' after after' => later = places ∧ heap = machine.heap ∧
        heap' = machine'.heap ∧ after = machine ∧ after' = machine' :=
  .give ⟨places, stay hmachine, rfl, rfl, rfl, rfl, rfl⟩

theorem here :
    Aligned contrast layers places machine machine' Run.here Run.here
      fun later place place' after after' => later = places ∧ place = machine.environment ∧
        place' = machine'.environment ∧ after = machine ∧ after' = machine' :=
  .give ⟨places, stay hmachine, rfl, rfl, rfl, rfl, rfl⟩

theorem get :
    Aligned contrast layers places machine machine' MonadState.get MonadState.get
      fun later state state' after after' => later = places ∧ state = machine ∧
        state' = machine' ∧ after = machine ∧ after' = machine' :=
  .give ⟨places, stay hmachine, rfl, rfl, rfl, rfl, rfl⟩

/-- The heaps have changed. -/
theorem withHeap {heap heap' : Heap} {later : Places}
    (honwards : machine.heap.Onwards machine'.heap places heap heap' later)
    (hheap : heap.Boxed contrast.demands later heap') :
    Advance contrast layers places machine machine' later { machine with heap := heap }
      { machine' with heap := heap' } :=
  ⟨honwards, rfl, hheap, hmachine.around.onwards honwards, hmachine.callDepth, hmachine.distances,
    hmachine.distances', hmachine.clock, hmachine.clockReads, hmachine.sink, hmachine.output⟩

theorem allocate {change : Heap → α × Heap} {change' : Heap → β × Heap} {later : Places}
    (honwards : machine.heap.Onwards machine'.heap places (change machine.heap).2
      (change' machine'.heap).2 later)
    (hheap : (change machine.heap).2.Boxed contrast.demands later (change' machine'.heap).2) :
    Aligned contrast layers places machine machine' (Run.allocate change) (Run.allocate change')
      fun latest a a' after after' => latest = later ∧ a = (change machine.heap).1 ∧
        a' = (change' machine'.heap).1 ∧
          after = { machine with heap := (change machine.heap).2 } ∧
            after' = { machine' with heap := (change' machine'.heap).2 } :=
  .give ⟨later, withHeap hmachine honwards hheap, rfl, rfl, rfl, rfl, rfl⟩

theorem update {change change' : Heap → Heap} {later : Places}
    (honwards : machine.heap.Onwards machine'.heap places (change machine.heap)
      (change' machine'.heap) later)
    (hheap : (change machine.heap).Boxed contrast.demands later (change' machine'.heap)) :
    Aligned contrast layers places machine machine' (Run.update change) (Run.update change')
      fun latest _ _ after after' => latest = later ∧
        after = { machine with heap := change machine.heap } ∧
          after' = { machine' with heap := change' machine'.heap } :=
  .give ⟨later, withHeap hmachine honwards hheap, rfl, rfl, rfl⟩

/-- A binding in an environment that both machines have. -/
theorem bound {place : EnvironmentId} (hplace : place < machine.heap.environments.size)
    (name : String) (value : Value) :
    Aligned contrast layers places machine machine'
      (Run.update fun heap => heap.define place name value)
      (Run.update fun heap => heap.define (places place) name value)
      fun later _ _ after _ => later = places ∧
        after = { machine with heap := machine.heap.define place name value } :=
  (update hmachine (.define machine.heap machine'.heap places place (places place) name value)
    (hmachine.heap.define hplace name value)).mono
      fun _ _ _ _ _ ⟨hlater, hafter, _⟩ => ⟨hlater, hafter⟩

/-- A binding in the current environment, which is not one of an extra block. -/
theorem define (hshared : layers.Shared) (name : String) (value : Value) :
    Aligned contrast layers places machine machine' (Run.define name value)
      (Run.define name value) fun later _ _ after _ => later = places ∧
        after = { machine with heap := machine.heap.define machine.environment name value } := by
  refine (here hmachine).bind ?_
  rintro _ _ _ _ _ - ⟨rfl, rfl, rfl, rfl, rfl⟩
  rw [hmachine.around.place_eq hshared hmachine.heap.globals]
  exact bound hmachine (hmachine.around.lt_size hmachine.heap.nonempty) name value

end

/-- Actions in other environments. -/
theorem within {result : α → β → Prop} {inside : Layers} {place place' : EnvironmentId}
    (hmachine : machine.Boxed contrast places layers machine')
    (haround : machine.heap.Around machine'.heap places inside place place')
    (h : Machine.Boxed contrast places inside { machine with environment := place }
        { machine' with environment := place' } →
      Aligned contrast inside places { machine with environment := place }
        { machine' with environment := place' } action action' fun _ a a' _ _ => result a a') :
    Aligned contrast layers places machine machine' (Run.within place action)
      (Run.within place' action') fun _ a a' _ _ => result a a' := by
  have hinside := h ⟨hmachine.heap, haround, hmachine.callDepth, hmachine.distances,
    hmachine.distances', hmachine.clock, hmachine.clockReads, hmachine.sink, hmachine.output⟩
  rw [Aligned, within_eq_put, within_eq_put]
  refine hinside.put (fun _ => rfl) (fun _ => rfl) ?_
  rintro a a' after after' ⟨later, ⟨honwards, -, hafter⟩, hresult⟩
  exact ⟨later, ⟨honwards, rfl, hafter.heap, hmachine.around.onwards honwards, hafter.callDepth,
    hafter.distances, hafter.distances', hafter.clock, hafter.clockReads, hafter.sink,
    hafter.output⟩, hresult⟩

/-- The second action alone is in a new environment, that of an extra block. -/
theorem withinExtra {result : α → β → Prop}
    (hmachine : machine.Boxed contrast places layers machine') (region' : Option Region)
    (h : ∀ inner : Machine, machine.Boxed contrast places (.extra :: layers) inner →
      Aligned contrast (.extra :: layers) places machine inner action action'
        fun _ a a' _ _ => result a a') :
    Aligned contrast layers places machine machine' action
      (do
        let outer ← Run.here
        let place ← Run.allocate fun heap => heap.child outer region'
        Run.within place action') fun _ a a' _ _ => result a a' := by
  let entered := machine'.heap.child machine'.environment region'
  let inner : Machine := { machine' with heap := entered.2, environment := entered.1 }
  have hinside := h inner ⟨hmachine.heap.childExtra _ _, hmachine.around.childExtra region',
    hmachine.callDepth, hmachine.distances, hmachine.distances', hmachine.clock,
    hmachine.clockReads, hmachine.sink, hmachine.output⟩
  -- the first action does not enter an environment, so that nothing is put back after it
  have hfirst : action machine = Outcome.put (fun after => after) (action machine) := by
    cases action machine <;> rfl
  have hsecond : (do
      let outer ← Run.here
      let place ← Run.allocate fun heap => heap.child outer region'
      Run.within place action' : Action β) machine' =
        Run.within entered.1 action' { machine' with heap := entered.2 } := rfl
  rw [Aligned, hsecond, within_eq_put, hfirst]
  refine hinside.put (fun _ => rfl) (fun _ => rfl) ?_
  rintro a a' after after' ⟨later, ⟨honwards, hplace, hafter⟩, hresult⟩
  have honwards' := (Heap.Onwards.childExtra machine.heap machine'.heap places
    machine'.environment region').trans honwards
  refine ⟨later, ⟨honwards', hplace, hafter.heap, ?_, hafter.callDepth, hafter.distances,
    hafter.distances', hafter.clock, hafter.clockReads, hafter.sink, hafter.output⟩, hresult⟩
  rw [hplace]
  exact hmachine.around.onwards honwards'

theorem nested {result : α → β → Prop} (hmachine : machine.Boxed contrast places layers machine')
    (h : Machine.Boxed contrast places layers { machine with callDepth := machine.callDepth + 1 }
        { machine' with callDepth := machine'.callDepth + 1 } →
      Aligned contrast layers places { machine with callDepth := machine.callDepth + 1 }
        { machine' with callDepth := machine'.callDepth + 1 } action action'
          fun _ a a' _ _ => result a a') :
    Aligned contrast layers places machine machine' (Run.nested action) (Run.nested action')
      fun _ a a' _ _ => result a a' := by
  have hinside := h ⟨hmachine.heap, hmachine.around, congrArg (· + 1) hmachine.callDepth,
    hmachine.distances, hmachine.distances', hmachine.clock, hmachine.clockReads, hmachine.sink,
    hmachine.output⟩
  rw [Aligned, nested_eq_put, nested_eq_put]
  refine hinside.put (fun _ => rfl) (fun _ => rfl) ?_
  rintro a a' after after' ⟨later, ⟨honwards, hplace, hafter⟩, hresult⟩
  exact ⟨later, ⟨honwards, hplace, hafter.heap, hafter.around, congrArg (· - 1) hafter.callDepth,
    hafter.distances, hafter.distances', hafter.clock, hafter.clockReads, hafter.sink,
    hafter.output⟩, hresult⟩

/-- Both machines offer the same to the sink. -/
theorem settle (hmachine : machine.Boxed contrast places layers machine')
    (offer : Sink → Output → Option String × Output) :
    Aligned contrast layers places machine machine' (Run.settle offer) (Run.settle offer) Same := by
  simp only [Aligned, Run.settle, hmachine.sink, hmachine.output]
  cases offer machine.sink machine.output with
  | mk message output =>
      cases message with
      | some message => exact .halt _ rfl
      | none =>
          exact .give ⟨places, ⟨.refl _ _ _, rfl, hmachine.heap, hmachine.around,
            hmachine.callDepth, hmachine.distances, hmachine.distances', hmachine.clock,
            hmachine.clockReads, rfl, rfl⟩, rfl⟩

/-- Both machines read the clock. -/
theorem readClock (hmachine : machine.Boxed contrast places layers machine') :
    Aligned contrast layers places machine machine' Run.readClock Run.readClock Same := by
  refine .give ⟨places, ⟨.refl _ _ _, rfl, hmachine.heap, hmachine.around, hmachine.callDepth,
    hmachine.distances, hmachine.distances', hmachine.clock, congrArg (· + 1) hmachine.clockReads,
    hmachine.sink, hmachine.output⟩, ?_⟩
  rw [Same, hmachine.clock, hmachine.clockReads]

end Aligned

end Lox.Run
