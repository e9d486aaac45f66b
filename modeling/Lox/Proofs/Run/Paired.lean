import Lox.Proofs.Heap.Twin
import Lox.Proofs.Run.History
import Lox.Proofs.Run.Lookup

/-!
# Runs side by side

Two machines whose heaps are twins do tasks that are twins. `Paired` says of the outcomes of two
steps that they come about alike: they ask for twin tasks from twin machines, one after the other,
and end with the same result, or with errors that go together.
-/

namespace Lox

/-! ## Twin machines and tasks -/

/-- What is fixed while two runs are compared: by which pairings pieces of their programs may be
twins, and how many flushes more the first output was offered. -/
structure Comparison where
  pairing : Pairing → Prop
  ahead : Nat

namespace Run

variable {α β γ δ : Type}

/-- Outputs of the same bytes, of which the first was offered so many flushes more. -/
structure Output.Twin (ahead : Nat) (output output' : Output) : Prop where
  offered : output'.offered = output.offered
  written : output'.written = output.written
  flushes : output.flushes = output'.flushes + ahead

theorem Output.Twin.eq {output output' : Output} (h : output.Twin 0 output') : output' = output := by
  obtain ⟨offered, flushes, written⟩ := output
  obtain ⟨hoffered, hwritten, hflushes⟩ := h
  cases output'
  simp_all

/-- Machines in one environment of twin heaps, which is inside scopes with these renamers. They know
the same distances for uses that go together. -/
structure Machine.Twin (comparison : Comparison) (renamers : Renamers) (scopes : List Renamer)
    (machine machine' : Machine) : Prop where
  heap : machine.heap.Twin comparison.pairing renamers machine'.heap
  scopes : machine.heap.Scoped renamers scopes machine.environment
  environment : machine'.environment = machine.environment
  callDepth : machine'.callDepth = machine.callDepth
  clock : machine'.clock = machine.clock
  clockReads : machine'.clockReads = machine.clockReads
  sink : machine'.sink = machine.sink
  output : machine.output.Twin comparison.ahead machine'.output
  distances : ∀ pairing, comparison.pairing pairing → ∀ id id' distance,
    pairing.matched id id' distance →
      machine.distances[id]? = distance ∧ machine'.distances[id']? = distance

/-- Tasks that are twins inside scopes with these renamers. -/
inductive Task.Twin (pairing : Pairing) (scopes : List Renamer) : Task → Task → Prop where
  | evaluate {e e' : Expr} : e.Twin pairing scopes e' →
      Task.Twin pairing scopes (.evaluate e) (.evaluate e')
  | evaluateAll {es es' : List Expr} : Expr.TwinAll pairing scopes es es' →
      Task.Twin pairing scopes (.evaluateAll es) (.evaluateAll es')
  | execute {s s' : Stmt} : s.Twin pairing scopes s' →
      Task.Twin pairing scopes (.execute s) (.execute s')
  | executeAll {statements statements' : List Stmt} :
      Stmt.TwinAll pairing scopes statements statements' →
        Task.Twin pairing scopes (.executeAll statements) (.executeAll statements')

/-- Equal results of tasks of one kind. -/
def Task.Alike : (task task' : Task) → task.Result → task'.Result → Prop
  | .evaluate _, .evaluate _ => Eq
  | .evaluateAll _, .evaluateAll _ => Eq
  | .execute _, .execute _ => Eq
  | .executeAll _, .executeAll _ => Eq
  | _, _ => fun _ _ => False

/-! ## Errors that go together -/

/-- The run of a task comes to the task `last`, which ends with the error although everything that
it asks for gives a result. -/
def Raised (fuel : Nat) (task : Task) (machine : Machine) (error : RuntimeError) (last : Task)
    (moment : Machine) : Prop :=
  ∃ rest final, Comes fuel task machine (rest + 1) last moment ∧
    Task.run (rest + 1) last moment = .error (.fault error) final ∧
      ∀ inner start, Asks (Task.run rest) last moment inner start →
        ∃ a after, Task.run rest inner start = .ok a after

theorem Raised.inside {fuel : Nat} {task inner last : Task} {machine start moment : Machine}
    {error : RuntimeError} (h : Raised fuel inner start error last moment)
    (hasks : Asks (Task.run fuel) task machine inner start) :
    Raised (fuel + 1) task machine error last moment := by
  obtain ⟨rest, final, hcomes, hend, hasked⟩ := h
  exact ⟨rest, final, .inside hasks hcomes, hend, hasked⟩

/-- A task that raises an error is blamed for it by one of its own tokens. -/
theorem Raised.faults {fuel : Nat} {task last : Task} {machine moment : Machine}
    {error : RuntimeError} (h : Raised fuel task machine error last moment) :
    error ∈ last.faults := by
  obtain ⟨rest, final, -, hend, hasked⟩ := h
  obtain hown | ⟨inner, start, after, hasks, -, -, hinner⟩ :=
    (begins_any (rest + 1) last moment).traced.interrupted .whole (begins_any _ _ _).safe
      (.refl _) hend
  · exact hown
  · obtain ⟨a, after', hanswer⟩ := hasked inner start hasks
    have hcontra : (.ok a after' : Outcome inner.Result) = .error (.fault error) after :=
      hanswer.symm.trans hinner
    cases hcontra

/-- Errors of a task and of its twin: the same fault at tokens that go together. A variable that is
not found at its distance is called by its name in each. -/
inductive Agree (pairing : Pairing) (last : Task) : RuntimeError → RuntimeError → Prop where
  | same (fault : RuntimeFault) {token token' : Token} : pairing.token token token' →
      Agree pairing last ⟨fault, token⟩ ⟨fault, token'⟩
  | lost {e : Expr} {u : Use} {id' : NodeId} {distance : Nat} {name' : Token} :
      last = .evaluate e → e.use? = some u → u.kind ≠ .assign →
        pairing.matched u.node id' (some distance) → pairing.token u.token name' →
          Agree pairing last (Heap.undefined u.token) (Heap.undefined name')

/-- Interrupts that go together. An error was raised by a task whose twin raised the other. -/
inductive Interrupt.Twin (comparison : Comparison) (fuel : Nat) (task : Task) (machine : Machine) :
    Interrupt → Interrupt → Prop where
  | fault {error error' : RuntimeError} {last last' : Task} {moment : Machine} {pairing : Pairing}
      {scopes : List Renamer} :
      Raised fuel task machine error last moment → comparison.pairing pairing →
        last.Twin pairing scopes last' → Agree pairing last error error' →
          Interrupt.Twin comparison fuel task machine (.fault error) (.fault error')
  | refused (message : String) :
      Interrupt.Twin comparison fuel task machine (.refused message) (.refused message)
  | outOfFuel : Interrupt.Twin comparison fuel task machine .outOfFuel .outOfFuel

theorem Interrupt.Twin.inside {comparison : Comparison} {fuel : Nat} {task inner : Task}
    {machine start : Machine} {interrupt interrupt' : Interrupt}
    (h : interrupt.Twin comparison fuel inner start interrupt')
    (hasks : Asks (Task.run fuel) task machine inner start) :
    interrupt.Twin comparison (fuel + 1) task machine interrupt' := by
  cases h with
  | fault hraised hpairing htwin hagree => exact .fault (hraised.inside hasks) hpairing htwin hagree
  | refused message => exact .refused message
  | outOfFuel => exact .outOfFuel

/-! ## Twin outcomes -/

/-- From a machine and its twin two machines come about that are twins again, in the environment in
which it began. -/
structure Follows (comparison : Comparison) (scopes : List Renamer) (heap : Heap)
    (place : EnvironmentId) (renamers later : Renamers) (after after' : Machine) : Prop where
  onward : heap.Onward renamers after.heap later
  environment : after.environment = place
  twin : after.Twin comparison later scopes after'

/-- The heap may have grown before. -/
theorem Follows.earlier {comparison : Comparison} {scopes : List Renamer} {heap grown : Heap}
    {place : EnvironmentId} {renamers later latest : Renamers} {after after' : Machine}
    (h : Follows comparison scopes grown place later latest after after')
    (honward : heap.Onward renamers grown later) :
    Follows comparison scopes heap place renamers latest after after' :=
  ⟨honward.trans h.onward, h.environment, h.twin⟩

/-- Outcomes of a task and of its twin: both give the same, or both end with interrupts that go
together. Either way the machines are twins afterwards. -/
def Outcome.Twin (comparison : Comparison) (scopes : List Renamer) (renamers : Renamers)
    (fuel : Nat) (task task' : Task) (machine : Machine) :
    Outcome task.Result → Outcome task'.Result → Prop
  | .ok a after, .ok a' after' => Task.Alike task task' a a' ∧ ∃ later,
      Follows comparison scopes machine.heap machine.environment renamers later after after'
  | .error interrupt after, .error interrupt' after' =>
      interrupt.Twin comparison fuel task machine interrupt' ∧ ∃ later,
        Follows comparison scopes machine.heap machine.environment renamers later after after'
  | _, _ => False

/-! ## Steps side by side -/

/-- The step of a task from a machine, beside the step of a twin of the task. -/
structure Stride where
  comparison : Comparison
  pairing : Pairing
  fuel : Nat
  task : Task
  machine : Machine

/-- The steps end by themselves, for these reasons. -/
inductive Stride.Ends (stride : Stride) : Interrupt → Interrupt → Prop where
  | fault {error error' : RuntimeError} : Agree stride.pairing stride.task error error' →
      stride.Ends (.fault error) (.fault error')
  | refused (message : String) : stride.Ends (.refused message) (.refused message)

/-- From the heap on, the two outcomes come about alike: their machines are in the environment
`place`, which is inside the scopes, and results are as expected. -/
inductive Paired (stride : Stride) (scopes : List Renamer) (place : EnvironmentId)
    (expect : Renamers → α → β → Machine → Machine → Prop) :
    Renamers → Heap → (Runner → Outcome α) → (Runner → Outcome β) → Prop where
  | give {renamers later : Renamers} {heap : Heap} {a : α} {a' : β} {after after' : Machine} :
      Follows stride.comparison scopes heap place renamers later after after' →
        expect later a a' after after' →
          Paired stride scopes place expect renamers heap (fun _ => .ok a after)
            fun _ => .ok a' after'
  | halt {renamers later : Renamers} {heap : Heap} {interrupt interrupt' : Interrupt}
      {after after' : Machine} :
      stride.Ends interrupt interrupt' →
        Follows stride.comparison scopes heap place renamers later after after' →
          Paired stride scopes place expect renamers heap (fun _ => .error interrupt after)
            fun _ => .error interrupt' after'
  | ask {renamers later : Renamers} {heap : Heap} {inner inner' : Task} {start start' : Machine}
      {pairing : Pairing} {around : List Renamer} {leave leave' : Machine → Machine}
      {next : inner.Result → Machine → Runner → Outcome α}
      {next' : inner'.Result → Machine → Runner → Outcome β} :
      heap.Onward renamers start.heap later → stride.comparison.pairing pairing →
        inner.Twin pairing around inner' → start.Twin stride.comparison later around start' →
          (∀ latest after after',
            Follows stride.comparison around start.heap start.environment later latest after after' →
              Follows stride.comparison scopes start.heap place later latest (leave after)
                (leave' after')) →
            (∀ latest a a' after after', Task.Alike inner inner' a a' →
              Follows stride.comparison around start.heap start.environment later latest after
                after' →
              Paired stride scopes place expect latest after.heap (next a after)
                (next' a' after')) →
              Paired stride scopes place expect renamers heap (asking inner start leave next)
                (asking inner' start' leave' next')

namespace Paired

variable {stride : Stride} {scopes : List Renamer} {place : EnvironmentId}
  {expect expect' : Renamers → α → β → Machine → Machine → Prop} {renamers later : Renamers}
  {heap heap' : Heap} {outcome : Runner → Outcome α} {outcome' : Runner → Outcome β}

theorem mono (h : Paired stride scopes place expect renamers heap outcome outcome')
    (hexpect : ∀ later a a' after after', expect later a a' after after' →
      expect' later a a' after after') :
    Paired stride scopes place expect' renamers heap outcome outcome' := by
  induction h with
  | give hfollows hresult => exact .give hfollows (hexpect _ _ _ _ _ hresult)
  | halt hends hfollows => exact .halt hends hfollows
  | ask honward hpairing htask hstart hleave _ ih =>
      exact .ask honward hpairing htask hstart hleave ih

/-- The heap may have grown before. -/
theorem earlier (h : Paired stride scopes place expect later heap' outcome outcome')
    (honward : heap.Onward renamers heap' later) :
    Paired stride scopes place expect renamers heap outcome outcome' := by
  cases h with
  | give hfollows hresult => exact .give (hfollows.earlier honward) hresult
  | halt hends hfollows => exact .halt hends (hfollows.earlier honward)
  | ask hgrown hpairing htask hstart hleave hnext =>
      exact .ask (honward.trans hgrown) hpairing htask hstart hleave hnext

/-- Other outcomes may follow. -/
theorem bind {second : α → Machine → Runner → Outcome γ} {second' : β → Machine → Runner → Outcome δ}
    {expect' : Renamers → γ → δ → Machine → Machine → Prop}
    (h : Paired stride scopes place expect renamers heap outcome outcome')
    (hsecond : ∀ later a a' after after',
      Follows stride.comparison scopes heap place renamers later after after' →
        expect later a a' after after' →
          Paired stride scopes place expect' later after.heap (second a after)
            (second' a' after')) :
    Paired stride scopes place expect' renamers heap
      (fun runner => (outcome runner).andThen fun a after => second a after runner)
      fun runner => (outcome' runner).andThen fun a after => second' a after runner := by
  induction h with
  | give hfollows hresult => exact (hsecond _ _ _ _ _ hfollows hresult).earlier hfollows.onward
  | halt hends hfollows => exact .halt hends hfollows
  | @ask renamers later heap inner inner' start start' pairing around leave leave' next next'
      honward hpairing htask hstart hleave _ ih =>
      have hrest : Paired stride scopes place expect' renamers heap
          (asking inner start leave fun a after runner =>
            (next a after runner).andThen fun b last => second b last runner)
          (asking inner' start' leave' fun a after runner =>
            (next' a after runner).andThen fun b last => second' b last runner) :=
        .ask honward hpairing htask hstart hleave
          fun latest a a' after after' halike hfollows =>
            ih latest a a' after after' halike hfollows fun last b b' final final' hlast hresult =>
              hsecond last b b' final final' (hlast.earlier (honward.trans hfollows.onward)) hresult
      refine cast (congrArg₂ _ (funext fun runner => ?_) (funext fun runner => ?_)) hrest
      · simp only [asking]
        cases runner inner start <;> rfl
      · simp only [asking]
        cases runner inner' start' <;> rfl

/-- The machines may be put back at the end. -/
theorem leave {around : List Renamer} {outer : EnvironmentId} {leave leave' : Machine → Machine}
    (h : Paired stride around place expect renamers heap outcome outcome')
    (hleave : ∀ later after after',
      Follows stride.comparison around heap place renamers later after after' →
        (leave after).heap = after.heap ∧
          Follows stride.comparison scopes heap outer renamers later (leave after) (leave' after')) :
    Paired stride scopes outer
      (fun later a a' after after' => ∃ inner inner', expect later a a' inner inner' ∧
        after = leave inner ∧ after' = leave' inner')
      renamers heap
      (fun runner =>
        match outcome runner with
        | .ok a after => .ok a (leave after)
        | .error interrupt after => .error interrupt (leave after))
      fun runner =>
        match outcome' runner with
        | .ok a after => .ok a (leave' after)
        | .error interrupt after => .error interrupt (leave' after) := by
  induction h with
  | give hfollows hresult => exact .give (hleave _ _ _ hfollows).2 ⟨_, _, hresult, rfl, rfl⟩
  | halt hends hfollows => exact .halt hends (hleave _ _ _ hfollows).2
  | @ask renamers later heap inner inner' start start' pairing within back back' next next'
      honward hpairing htask hstart hback _ ih =>
      -- what is put back later has grown from a later heap
      have hput : ∀ {grown : Heap} {latest : Renamers}, heap.Onward renamers grown latest →
          ∀ last final final',
            Follows stride.comparison around grown place latest last final final' →
              (leave final).heap = final.heap ∧
                Follows stride.comparison scopes grown outer latest last (leave final)
                  (leave' final') := by
        intro grown latest hgrown last final final' hfollows
        obtain ⟨hheap, hput⟩ := hleave last final final' (hfollows.earlier hgrown)
        exact ⟨hheap, by rw [hheap]; exact hfollows.onward, hput.environment, hput.twin⟩
      have hrest : Paired stride scopes outer
          (fun later a a' after after' => ∃ inner inner', expect later a a' inner inner' ∧
            after = leave inner ∧ after' = leave' inner') renamers heap
          (asking inner start (leave ∘ back) fun a after runner =>
            match next a after runner with
            | .ok b last => .ok b (leave last)
            | .error interrupt last => .error interrupt (leave last))
          (asking inner' start' (leave' ∘ back') fun a after runner =>
            match next' a after runner with
            | .ok b last => .ok b (leave' last)
            | .error interrupt last => .error interrupt (leave' last)) := by
        refine .ask honward hpairing htask hstart
          (fun latest after after' hfollows => (hput honward _ _ _ (hback _ _ _ hfollows)).2)
          fun latest a a' after after' halike hfollows =>
            ih latest a a' after after' halike hfollows (hput (honward.trans hfollows.onward))
      refine cast (congrArg₂ _ (funext fun runner => ?_) (funext fun runner => ?_)) hrest
      · simp only [asking]
        cases runner inner start <;> rfl
      · simp only [asking]
        cases runner inner' start' <;> rfl

end Paired

/-! ## What follows -/

/-- A runner that gives all results that were given makes no difference to what is left. -/
theorem Rest.eq_of_answers {sub other : Runner} {outcome rest : Runner → Outcome α}
    (h : Rest sub outcome rest)
    (hother : ∀ inner start a after, sub inner start = .ok a after →
      other inner start = .ok a after) : outcome other = rest other := by
  induction h with
  | whole => rfl
  | answer _ hanswer ih => rw [ih, asking, hother _ _ _ _ hanswer]

/-- A step that ends by itself has been given a result for everything that it asked for. -/
theorem Rest.answered {sub : Runner} {task : Task} {machine : Machine}
    {final : Outcome task.Result}
    (h : Rest sub (fun runner => task.step runner machine) fun _ => final) {inner : Task}
    {start : Machine} (hasks : Asks sub task machine inner start) :
    ∃ a after, sub inner start = .ok a after := by
  obtain ⟨other, hother, hdiffers⟩ := hasks
  apply Classical.byContradiction
  intro hnone
  apply hdiffers
  have hsame : task.step other machine = final := h.eq_of_answers fun task machine a after hanswer => by
    rw [hother task machine, hanswer]
    intro heq
    cases heq
    exact hnone ⟨a, after, hanswer⟩
  rw [hsame]
  exact (h.eq_of_answers fun _ _ _ _ hanswer => hanswer).symm

/-- Tasks that are twins have outcomes that are, with so much fuel. -/
def RunsAlike (comparison : Comparison) (fuel : Nat) : Prop :=
  ∀ pairing scopes renamers task task' machine machine', comparison.pairing pairing →
    Task.Twin pairing scopes task task' → Machine.Twin comparison renamers scopes machine machine' →
      Outcome.Twin comparison scopes renamers fuel task task' machine (Task.run fuel task machine)
        (Task.run fuel task' machine')

/-- Steps that come about alike have twin outcomes, if the runs of what they ask for have. -/
theorem Paired.outcome {stride : Stride} {task' : Task} {scopes around : List Renamer}
    {renamers later : Renamers} {heap : Heap} {outcome : Runner → Outcome stride.task.Result}
    {outcome' : Runner → Outcome task'.Result}
    (h : Paired stride scopes stride.machine.environment
      (fun _ a a' _ _ => Task.Alike stride.task task' a a') later heap outcome outcome')
    (hgoes : Rest (Task.run stride.fuel) (fun runner => stride.task.step runner stride.machine)
      outcome)
    (honward : stride.machine.heap.Onward renamers heap later)
    (hpairing : stride.comparison.pairing stride.pairing)
    (htask : stride.task.Twin stride.pairing around task')
    (hsub : RunsAlike stride.comparison stride.fuel) :
    Outcome.Twin stride.comparison scopes renamers (stride.fuel + 1) stride.task task'
      stride.machine (outcome (Task.run stride.fuel)) (outcome' (Task.run stride.fuel)) := by
  induction h with
  | give hfollows halike => exact ⟨halike, _, hfollows.earlier honward⟩
  | @halt renamers later heap interrupt interrupt' after after' hends hfollows =>
      refine ⟨?_, later, hfollows.earlier honward⟩
      cases hends with
      | refused message => exact .refused message
      | fault hagree =>
          refine .fault ⟨stride.fuel, after, .here, ?_, fun inner start => hgoes.answered⟩ hpairing
            htask hagree
          exact hgoes.eq_of_answers fun _ _ _ _ hanswer => hanswer
  | @ask renamers later heap inner inner' start start' pairing within leave leave' next next' hgrown
      hpairing' hinner hstart hleave _ ih =>
      have hrun := hsub pairing within later inner inner' start start' hpairing' hinner hstart
      simp only [asking]
      cases hanswer : Task.run stride.fuel inner start with
      | ok a after =>
          cases hanswer' : Task.run stride.fuel inner' start' with
          | ok a' after' =>
              rw [hanswer, hanswer'] at hrun
              obtain ⟨halike, latest, hfollows⟩ := hrun
              exact ih latest a a' after after' halike hfollows (.answer hgoes hanswer)
                ((honward.trans hgrown).trans hfollows.onward)
          | error interrupt' after' =>
              rw [hanswer, hanswer'] at hrun
              exact hrun.elim
      | error interrupt after =>
          cases hanswer' : Task.run stride.fuel inner' start' with
          | ok a' after' =>
              rw [hanswer, hanswer'] at hrun
              exact hrun.elim
          | error interrupt' after' =>
              rw [hanswer, hanswer'] at hrun
              obtain ⟨hinterrupt, latest, hfollows⟩ := hrun
              exact ⟨hinterrupt.inside hgoes.asks, latest,
                (hleave latest after after' hfollows).earlier (honward.trans hgrown)⟩

/-! ## Actions side by side -/

/-- From a machine and its twin, two actions come about alike. -/
def Pairs (stride : Stride) (scopes : List Renamer) (renamers : Renamers)
    (machine machine' : Machine) (action : Runner → Action α) (action' : Runner → Action β)
    (expect : Renamers → α → β → Machine → Machine → Prop) : Prop :=
  Paired stride scopes machine.environment expect renamers machine.heap
    (fun runner => action runner machine) fun runner => action' runner machine'

/-- The machines that come about from a machine and its twin. -/
abbrev Machine.Onward (stride : Stride) (scopes : List Renamer) (renamers : Renamers)
    (machine : Machine) (later : Renamers) (after after' : Machine) : Prop :=
  Follows stride.comparison scopes machine.heap machine.environment renamers later after after'

namespace Pairs

variable {stride : Stride} {scopes : List Renamer} {renamers : Renamers}
  {machine machine' : Machine} {action : Runner → Action α} {action' : Runner → Action β}
  {expect expect' : Renamers → α → β → Machine → Machine → Prop}

theorem mono (h : Pairs stride scopes renamers machine machine' action action' expect)
    (hexpect : ∀ later a a' after after', expect later a a' after after' →
      expect' later a a' after after') :
    Pairs stride scopes renamers machine machine' action action' expect' :=
  Paired.mono h hexpect

theorem bind {second : α → Runner → Action γ} {second' : β → Runner → Action δ}
    {expect' : Renamers → γ → δ → Machine → Machine → Prop}
    (h : Pairs stride scopes renamers machine machine' action action' expect)
    (hsecond : ∀ later a a' after after', machine.Onward stride scopes renamers later after after' →
      expect later a a' after after' →
        Pairs stride scopes later after after' (second a) (second' a') expect') :
    Pairs stride scopes renamers machine machine' (fun runner => action runner >>= fun a => second a runner)
      (fun runner => action' runner >>= fun a => second' a runner) expect' := by
  simp only [Pairs, bind_eq_andThen]
  refine Paired.bind h fun later a a' after after' hfollows hresult => ?_
  have hnext := hsecond later a a' after after' hfollows hresult
  rwa [Pairs, hfollows.environment] at hnext

section

variable (htwin : machine.Twin stride.comparison renamers scopes machine')

include htwin

/-- Nothing has happened yet. -/
theorem stay : machine.Onward stride scopes renamers renamers machine machine' :=
  ⟨.refl _ _, rfl, htwin⟩

theorem pure {a : α} {a' : β} (h : expect renamers a a' machine machine') :
    Pairs stride scopes renamers machine machine' (fun _ => Pure.pure a) (fun _ => Pure.pure a')
      expect :=
  .give (stay htwin) h

/-- Twin tasks are asked for. -/
theorem ask {inner inner' : Task} {pairing : Pairing} (hpairing : stride.comparison.pairing pairing)
    (hinner : inner.Twin pairing scopes inner') :
    Pairs stride scopes renamers machine machine' (fun runner => runner inner)
      (fun runner => runner inner') fun _ a a' _ _ => Task.Alike inner inner' a a' := by
  have hask : Paired stride scopes machine.environment
      (fun _ a a' _ _ => Task.Alike inner inner' a a') renamers machine.heap
      (asking inner machine id fun a after _ => .ok a after)
      (asking inner' machine' id fun a after _ => .ok a after) :=
    .ask (.refl _ _) hpairing hinner htwin (fun _ _ _ hfollows => hfollows)
      fun latest a a' after after' halike hfollows =>
        .give ⟨.refl _ _, hfollows.environment, hfollows.twin⟩ halike
  rw [Pairs]
  refine cast (congrArg₂ _ (funext fun runner => ?_) (funext fun runner => ?_)) hask
  · simp only [asking]
    cases runner inner machine <;> rfl
  · simp only [asking]
    cases runner inner' machine' <;> rfl

theorem throw {error error' : RuntimeError} (h : Agree stride.pairing stride.task error error') :
    Pairs stride scopes renamers machine machine'
      (fun _ => MonadExcept.throw (.fault error) : Runner → Action α)
      (fun _ => MonadExcept.throw (.fault error') : Runner → Action β) expect :=
  .halt (.fault h) (stay htwin)

theorem fail (fault : RuntimeFault) {token token' : Token} (h : stride.pairing.token token token') :
    Pairs stride scopes renamers machine machine' (fun _ => Run.fail fault token : Runner → Action α)
      (fun _ => Run.fail fault token' : Runner → Action β) expect :=
  throw htwin (.same fault h)

theorem heap :
    Pairs stride scopes renamers machine machine' (fun _ => Run.heap) (fun _ => Run.heap)
      fun later heap heap' after after' => later = renamers ∧ heap = machine.heap ∧
        heap' = machine'.heap ∧ after = machine ∧ after' = machine' :=
  .give (stay htwin) ⟨rfl, rfl, rfl, rfl, rfl⟩

theorem here :
    Pairs stride scopes renamers machine machine' (fun _ => Run.here) (fun _ => Run.here)
      fun later place place' after after' => later = renamers ∧ place = machine.environment ∧
        place' = machine.environment ∧ after = machine ∧ after' = machine' :=
  .give (stay htwin) ⟨rfl, rfl, htwin.environment, rfl, rfl⟩

theorem get :
    Pairs stride scopes renamers machine machine' (fun _ => MonadState.get)
      (fun _ => MonadState.get) fun later state state' after after' => later = renamers ∧
        state = machine ∧ state' = machine' ∧ after = machine ∧ after' = machine' :=
  .give (stay htwin) ⟨rfl, rfl, rfl, rfl, rfl⟩

/-- The heaps have become other twins. -/
theorem withHeap {heap heap' : Heap} {later : Renamers}
    (honward : machine.heap.Onward renamers heap later)
    (hheap : heap.Twin stride.comparison.pairing later heap') :
    machine.Onward stride scopes renamers later { machine with heap := heap }
      { machine' with heap := heap' } :=
  ⟨honward, rfl, hheap, htwin.scopes.onward honward, htwin.environment, htwin.callDepth,
    htwin.clock, htwin.clockReads, htwin.sink, htwin.output, htwin.distances⟩

theorem allocate {change : Heap → α × Heap} {change' : Heap → β × Heap} {later : Renamers}
    (honward : machine.heap.Onward renamers (change machine.heap).2 later)
    (hheap : (change machine.heap).2.Twin stride.comparison.pairing later
      (change' machine'.heap).2) :
    Pairs stride scopes renamers machine machine' (fun _ => Run.allocate change)
      (fun _ => Run.allocate change') fun latest a a' after after' => latest = later ∧
        a = (change machine.heap).1 ∧ a' = (change' machine'.heap).1 ∧
          after = { machine with heap := (change machine.heap).2 } ∧
            after' = { machine' with heap := (change' machine'.heap).2 } :=
  .give (withHeap htwin honward hheap) ⟨rfl, rfl, rfl, rfl, rfl⟩

theorem update {change change' : Heap → Heap} {later : Renamers}
    (honward : machine.heap.Onward renamers (change machine.heap) later)
    (hheap : (change machine.heap).Twin stride.comparison.pairing later (change' machine'.heap)) :
    Pairs stride scopes renamers machine machine' (fun _ => Run.update change)
      (fun _ => Run.update change') fun latest _ _ after after' => latest = later ∧
        after = { machine with heap := change machine.heap } ∧
          after' = { machine' with heap := change' machine'.heap } :=
  .give (withHeap htwin honward hheap) ⟨rfl, rfl, rfl⟩

/-- A binding in the environment `place`, under its name in each heap. -/
theorem bound (place : EnvironmentId) {name name' : String} (value : Value)
    (hname : name' = (renamers place).rename name) :
    Pairs stride scopes renamers machine machine'
      (fun _ => Run.update fun heap => heap.define place name value)
      (fun _ => Run.update fun heap => heap.define place name' value)
      fun later _ _ after after' => later = renamers ∧
        after = { machine with heap := machine.heap.define place name value } ∧
          after' = { machine' with heap := machine'.heap.define place name' value } := by
  subst hname
  exact update htwin (.define _ _ _ _ _) (htwin.heap.define place name value)

/-- A binding in the current environment. -/
theorem define {name name' : String} (value : Value)
    (hname : name' = (Renamer.innermost scopes).rename name) :
    Pairs stride scopes renamers machine machine' (fun _ => Run.define name value)
      (fun _ => Run.define name' value) fun later _ _ after after' => later = renamers ∧
        after = { machine with heap := machine.heap.define machine.environment name value } ∧
          after' = { machine' with
            heap := machine'.heap.define machine.environment name' value } := by
  refine (here htwin).bind ?_
  rintro _ _ _ _ _ - ⟨rfl, rfl, rfl, rfl, rfl⟩
  refine bound htwin _ value ?_
  rw [htwin.scopes.innermost htwin.heap.globals, hname]

theorem within {around : List Renamer} {place : EnvironmentId}
    (hscoped : machine.heap.Scoped renamers around place)
    (h : Machine.Twin stride.comparison renamers around { machine with environment := place }
        { machine' with environment := place } →
      Pairs stride around renamers { machine with environment := place }
        { machine' with environment := place } action action' expect) :
    Pairs stride scopes renamers machine machine' (fun runner => Run.within place (action runner))
      (fun runner => Run.within place (action' runner)) fun later a a' after after' =>
        ∃ inner inner', expect later a a' inner inner' ∧
          after = { inner with environment := machine.environment } ∧
            after' = { inner' with environment := machine'.environment } := by
  have hinside := h ⟨htwin.heap, hscoped, rfl, htwin.callDepth, htwin.clock, htwin.clockReads,
    htwin.sink, htwin.output, htwin.distances⟩
  refine Paired.leave hinside fun later after after' hfollows => ⟨rfl, hfollows.onward, rfl, ?_⟩
  have hlast := hfollows.twin
  exact ⟨hlast.heap, htwin.scopes.onward hfollows.onward, htwin.environment, hlast.callDepth,
    hlast.clock, hlast.clockReads, hlast.sink, hlast.output, hlast.distances⟩

theorem nested
    (h : Machine.Twin stride.comparison renamers scopes
        { machine with callDepth := machine.callDepth + 1 }
        { machine' with callDepth := machine'.callDepth + 1 } →
      Pairs stride scopes renamers { machine with callDepth := machine.callDepth + 1 }
        { machine' with callDepth := machine'.callDepth + 1 } action action' expect) :
    Pairs stride scopes renamers machine machine' (fun runner => Run.nested (action runner))
      (fun runner => Run.nested (action' runner)) fun later a a' after after' =>
        ∃ inner inner', expect later a a' inner inner' ∧
          after = { inner with callDepth := inner.callDepth - 1 } ∧
            after' = { inner' with callDepth := inner'.callDepth - 1 } := by
  have hinside := h ⟨htwin.heap, htwin.scopes, htwin.environment,
    congrArg (· + 1) htwin.callDepth, htwin.clock, htwin.clockReads, htwin.sink, htwin.output,
    htwin.distances⟩
  refine Paired.leave hinside
    fun later after after' hfollows => ⟨rfl, hfollows.onward, hfollows.environment, ?_⟩
  have hlast := hfollows.twin
  exact ⟨hlast.heap, hlast.scopes, hlast.environment, congrArg (· - 1) hlast.callDepth,
    hlast.clock, hlast.clockReads, hlast.sink, hlast.output, hlast.distances⟩

end

end Pairs

end Run

end Lox
