import Lox.Proofs.Run.Step

/-!
# What happens during a run

What is known of single steps, carried along a run: the machine keeps its control, the heap changes
by the rules only, more fuel makes no difference to an answer, and whatever interrupts a run arose
in a task to which the run came.
-/

namespace Lox.Run

variable {α : Type}

/-! ## Along a step -/

/-- Whatever the step asks for keeps to the rules. -/
def Turn.Safe (turn : Turn) : Prop :=
  ∀ inner start, Asks turn.sub turn.task turn.machine inner start → turn.Permits inner start →
    Heap.Changes turn.rules turn.machine.heap start.heap →
      Evolves turn.rules start (Outcome.machine (turn.sub inner start))

/-- What is left of the step of a task. -/
def Turn.Goes (turn : Turn) (outcome : Runner → Outcome turn.task.Result) : Prop :=
  Rest turn.sub (fun runner => turn.task.step runner turn.machine) outcome

namespace Traced

variable {turn : Turn} {control : Control} {expect : turn.task.Result → Machine → Prop}
  {heap : Heap} {outcome : Runner → Outcome turn.task.Result}

/-- An answer that keeps to the rules. -/
theorem answered {inner : Task} {start : Machine} {a : inner.Result} {after : Machine}
    (h : Evolves turn.rules start (Outcome.machine (turn.sub inner start)))
    (hanswer : turn.sub inner start = .ok a after) : Evolves turn.rules start after := by
  rwa [hanswer] at h

theorem evolves (h : Traced turn control expect heap outcome) (hgoes : turn.Goes outcome)
    (hsafe : turn.Safe) (hheap : Heap.Changes turn.rules turn.machine.heap heap) :
    (Outcome.machine (outcome turn.sub)).control = control ∧
      Heap.Changes turn.rules heap (Outcome.machine (outcome turn.sub)).heap := by
  induction h with
  | give hchanges hcontrol _ => exact ⟨hcontrol, hchanges⟩
  | halt hchanges hcontrol _ => exact ⟨hcontrol, hchanges⟩
  | @ask heap inner start leave next hchanges hpermits hleave _ ih =>
      have hstart := hheap.trans hchanges
      have hinner := hsafe inner start hgoes.asks hpermits hstart
      cases hanswer : turn.sub inner start with
      | ok a after =>
          have hevolves := answered hinner hanswer
          obtain ⟨hcontrol, hrest⟩ := ih a after hanswer hevolves (.answer hgoes hanswer)
            (hstart.trans hevolves.heap)
          simp only [asking, hanswer]
          exact ⟨hcontrol, (hchanges.trans hevolves.heap).trans hrest⟩
      | error interrupt after =>
          rw [hanswer] at hinner
          obtain ⟨hcontrol, hsame⟩ := hleave after hinner.control
          simp only [asking, hanswer]
          refine ⟨hcontrol, ?_⟩
          change Heap.Changes turn.rules heap (leave after).heap
          rw [hsame]
          exact hchanges.trans hinner.heap

/-- What the step asks for is permitted, and happens between its beginning and its end. -/
theorem asked (h : Traced turn control expect heap outcome) (hgoes : turn.Goes outcome)
    (hsafe : turn.Safe) (hheap : Heap.Changes turn.rules turn.machine.heap heap) {inner : Task}
    {start : Machine} {other : Runner}
    (hother : ∀ task machine, (task, machine) ≠ (inner, start) →
      other task machine = turn.sub task machine)
    (hdiffers : outcome other ≠ outcome turn.sub) :
    turn.Permits inner start ∧ Heap.Changes turn.rules turn.machine.heap start.heap ∧
      Heap.Changes turn.rules (Outcome.machine (turn.sub inner start)).heap
        (Outcome.machine (outcome turn.sub)).heap := by
  induction h with
  | give _ _ _ => exact absurd rfl hdiffers
  | halt _ _ _ => exact absurd rfl hdiffers
  | @ask heap first moment leave next hchanges hpermits hleave hnext ih =>
      have hmoment := hheap.trans hchanges
      have hinner := hsafe first moment hgoes.asks hpermits hmoment
      by_cases hcase : (first, moment) = (inner, start)
      · cases hcase
        refine ⟨hpermits, hmoment, ?_⟩
        cases hanswer : turn.sub inner start with
        | ok a after =>
            have hevolves := answered hinner hanswer
            simp only [asking, hanswer]
            exact ((hnext a after hanswer hevolves).evolves (.answer hgoes hanswer) hsafe
              (hmoment.trans hevolves.heap)).2
        | error interrupt after =>
            rw [hanswer] at hinner
            simp only [asking, hanswer, Outcome.machine]
            rw [(hleave after hinner.control).2]
            exact .refl _
      · cases hanswer : turn.sub first moment with
        | ok a after =>
            have hevolves := answered hinner hanswer
            simp only [asking, hother _ _ hcase, hanswer] at hdiffers ⊢
            exact ih a after hanswer hevolves (.answer hgoes hanswer)
              (hmoment.trans hevolves.heap) hdiffers
        | error interrupt after =>
            exact absurd (by simp only [asking, hother _ _ hcase, hanswer]) hdiffers

/-- What interrupts the step is its own fault, or has interrupted a task that it asked for. -/
theorem interrupted (h : Traced turn control expect heap outcome) (hgoes : turn.Goes outcome)
    (hsafe : turn.Safe) (hheap : Heap.Changes turn.rules turn.machine.heap heap)
    {interrupt : Interrupt} {last : Machine} (hend : outcome turn.sub = .error interrupt last) :
    turn.Faults interrupt ∨
      ∃ inner start after, Asks turn.sub turn.task turn.machine inner start ∧
        turn.Permits inner start ∧ Heap.Changes turn.rules turn.machine.heap start.heap ∧
          turn.sub inner start = .error interrupt after := by
  induction h with
  | give _ _ _ => cases hend
  | halt _ _ hfault =>
      cases hend
      exact .inl hfault
  | @ask heap inner start leave next hchanges hpermits _ _ ih =>
      have hstart := hheap.trans hchanges
      cases hanswer : turn.sub inner start with
      | ok a after =>
          have hevolves := answered (hsafe inner start hgoes.asks hpermits hstart) hanswer
          simp only [asking, hanswer] at hend
          exact ih a after hanswer hevolves (.answer hgoes hanswer) (hstart.trans hevolves.heap)
            hend
      | error failure after =>
          simp only [asking, hanswer] at hend
          cases hend
          exact .inr ⟨inner, start, after, hgoes.asks, hpermits, hstart, hanswer⟩

/-- A runner that gives the same answers, where there are any, makes no difference. -/
theorem finished (h : Traced turn control expect heap outcome) (hgoes : turn.Goes outcome)
    (hsafe : turn.Safe) (hheap : Heap.Changes turn.rules turn.machine.heap heap) {other : Runner}
    (hother : ∀ task machine, (∀ last, turn.sub task machine ≠ .error .outOfFuel last) →
      other task machine = turn.sub task machine)
    (hend : ∀ last, outcome turn.sub ≠ .error .outOfFuel last) :
    outcome other = outcome turn.sub := by
  induction h with
  | give _ _ _ => rfl
  | halt _ _ _ => rfl
  | @ask heap inner start leave next hchanges hpermits _ _ ih =>
      have hstart := hheap.trans hchanges
      cases hanswer : turn.sub inner start with
      | ok a after =>
          have hevolves := answered (hsafe inner start hgoes.asks hpermits hstart) hanswer
          have hsame : other inner start = .ok a after := by
            rw [hother _ _ (by simp [hanswer]), hanswer]
          simp only [asking, hanswer, hsame] at hend ⊢
          exact ih a after hanswer hevolves (.answer hgoes hanswer) (hstart.trans hevolves.heap)
            hend
      | error interrupt after =>
          have hfinished : ∀ last, turn.sub inner start ≠ .error .outOfFuel last := by
            intro last hout
            exact hend (leave last) (by simp only [asking, hout])
          simp only [asking, hother _ _ hfinished, hanswer]

end Traced

/-! ## Along a run -/

/-- What a run comes to, and how much fuel is left then. -/
inductive Comes : (fuel : Nat) → Task → Machine → (rest : Nat) → Task → Machine → Prop where
  | here {fuel : Nat} {task : Task} {machine : Machine} : Comes fuel task machine fuel task machine
  | inside {fuel rest : Nat} {task inner last : Task} {machine start moment : Machine} :
      Asks (Task.run fuel) task machine inner start → Comes fuel inner start rest last moment →
        Comes (fuel + 1) task machine rest last moment

theorem Comes.visits {fuel rest : Nat} {task last : Task} {machine moment : Machine}
    (h : Comes fuel task machine rest last moment) : Visits fuel task machine last moment := by
  induction h with
  | here => exact .here
  | inside hasks _ ih => exact .inside hasks ih

theorem Visits.comes {fuel : Nat} {task last : Task} {machine moment : Machine}
    (h : Visits fuel task machine last moment) :
    ∃ rest, Comes fuel task machine rest last moment := by
  induction h with
  | here => exact ⟨_, .here⟩
  | inside hasks _ ih =>
      obtain ⟨rest, hcomes⟩ := ih
      exact ⟨rest, .inside hasks hcomes⟩

/-- What a task asks for to which the run comes is something that the run comes to. -/
theorem Comes.asks {fuel rest : Nat} {task last inner : Task} {machine moment start : Machine}
    (h : Comes fuel task machine (rest + 1) last moment)
    (hasks : Asks (Task.run rest) last moment inner start) :
    Comes fuel task machine rest inner start := by
  generalize hleft : rest + 1 = left at h
  induction h with
  | here =>
      subst hleft
      exact .inside hasks .here
  | inside hfirst _ ih => exact .inside hfirst (ih hasks hleft)

/-- Tasks to which runs come, all of certain code, with a record of the environments of `super` that
they make. -/
structure History where
  code : Code
  recorded : EnvironmentId → List FunctionDecl → ClassId → Prop
  visited : Nat → Task → Machine → Prop
  inside : ∀ {fuel : Nat} {task inner : Task} {machine start : Machine},
    visited (fuel + 1) task machine → Asks (Task.run fuel) task machine inner start →
      visited fuel inner start
  records : ∀ {fuel : Nat} {name : Token} {superclass : Expr} {methods : List FunctionDecl}
    {machine after : Machine} {id : ClassId},
    visited (fuel + 1) (.execute (.class_ name (some superclass) methods)) machine →
      Task.run fuel (.evaluate superclass) { machine with
        heap := machine.heap.define machine.environment name.lexeme .nil } = .ok (.class_ id) after →
        recorded after.heap.environments.size methods id

/-- A task may be where the interrupt arose, with so much fuel left. -/
def Interrupt.ArisesIn (rest : Nat) (last : Task) : Interrupt → Prop
  | .fault error => error ∈ last.faults
  | .refused _ => True
  | .outOfFuel => rest = 0

namespace History

/-- All tasks of some code, with nothing recorded. -/
def all (code : Code) : History where
  code := code
  recorded _ _ _ := True
  visited _ _ _ := True
  inside _ _ := True.intro
  records _ _ := True.intro

variable (history : History)

/-- What the changes of the heap keep to. -/
def rules : Heap.Rules :=
  history.code.rules history.recorded

/-- The run may be that of the task from the machine. -/
structure Begins (fuel : Nat) (task : Task) (machine : Machine) : Prop where
  visited : history.visited fuel task machine
  code : history.code.task task
  sound : machine.heap.Sound history.rules

/-- The turn of a task in a run. -/
def turn (fuel : Nat) (task : Task) (machine : Machine) : Turn :=
  ⟨history.code, history.recorded, Task.run fuel, task, machine⟩

variable {history} {fuel : Nat} {task inner : Task} {machine start : Machine}

theorem Begins.traced (h : history.Begins (fuel + 1) task machine) :
    Traced (history.turn fuel task machine) machine.control (fun _ _ => True) machine.heap
      fun runner => task.step runner machine := by
  refine step_traced (history.turn fuel task machine) h.code h.sound ?_
  intro name superclass methods id after htask hvalue
  change task = _ at htask
  subst htask
  exact history.records h.visited hvalue

/-- What is asked for begins as well. -/
theorem Begins.inside (h : history.Begins (fuel + 1) task machine)
    (hasks : Asks (Task.run fuel) task machine inner start)
    (hpermits : Permits history.code task machine inner start)
    (hheap : Heap.Changes history.rules machine.heap start.heap) :
    history.Begins fuel inner start :=
  ⟨history.inside h.visited hasks, hpermits.code, h.sound.changes hheap⟩

/-- However a task ends, the machine keeps its control and its heap has changed by the rules. -/
theorem Begins.evolves (h : history.Begins fuel task machine) :
    Evolves history.rules machine (Outcome.machine (Task.run fuel task machine)) := by
  induction fuel generalizing task machine with
  | zero => exact .refl machine
  | succ fuel ih =>
      obtain ⟨hcontrol, hheap⟩ := h.traced.evolves .whole
        (fun inner start hasks hpermits hheap => ih (h.inside hasks hpermits hheap)) (.refl _)
      exact ⟨hcontrol, hheap⟩

theorem Begins.safe (h : history.Begins (fuel + 1) task machine) :
    (history.turn fuel task machine).Safe :=
  fun _ _ hasks hpermits hheap => (h.inside hasks hpermits hheap).evolves

theorem Begins.asked (h : history.Begins (fuel + 1) task machine)
    (hasks : Asks (Task.run fuel) task machine inner start) :
    Permits history.code task machine inner start ∧
      Heap.Changes history.rules machine.heap start.heap ∧
        Heap.Changes history.rules (Outcome.machine (Task.run fuel inner start)).heap
          (Outcome.machine (Task.run (fuel + 1) task machine)).heap := by
  obtain ⟨other, hother, hdiffers⟩ := hasks
  exact h.traced.asked .whole h.safe (.refl _) hother hdiffers

/-- A task to which a run comes begins in it, after some changes of the heap and before others. -/
theorem Begins.comes {rest : Nat} {last : Task} {moment : Machine}
    (h : history.Begins fuel task machine) (hcomes : Comes fuel task machine rest last moment) :
    history.Begins rest last moment ∧ moment.distances = machine.distances ∧
      Heap.Changes history.rules machine.heap moment.heap ∧
        Heap.Changes history.rules (Outcome.machine (Task.run rest last moment)).heap
          (Outcome.machine (Task.run fuel task machine)).heap := by
  induction hcomes with
  | here => exact ⟨h, rfl, .refl _, .refl _⟩
  | inside hasks _ ih =>
      obtain ⟨hpermits, hbefore, hafter⟩ := h.asked hasks
      obtain ⟨hlast, hdistances, hbefore', hafter'⟩ := ih (h.inside hasks hpermits hbefore)
      exact ⟨hlast, hdistances.trans hpermits.distances, hbefore.trans hbefore',
        hafter'.trans hafter⟩

/-- What interrupts a run arose in a task to which the run came. -/
theorem Begins.interrupted (h : history.Begins fuel task machine) {interrupt : Interrupt}
    {after : Machine} (hend : Task.run fuel task machine = .error interrupt after) :
    ∃ rest last moment final, Comes fuel task machine rest last moment ∧
      Task.run rest last moment = .error interrupt final ∧ interrupt.ArisesIn rest last := by
  induction fuel generalizing task machine after with
  | zero =>
      cases hend
      exact ⟨0, task, machine, machine, .here, rfl, rfl⟩
  | succ fuel ih =>
      obtain hown | ⟨inner, start, final, hasks, hpermits, hheap, hinner⟩ :=
        h.traced.interrupted .whole h.safe (.refl _) hend
      · refine ⟨fuel + 1, task, machine, after, .here, hend, ?_⟩
        cases interrupt with
        | fault error => exact hown
        | refused message => exact True.intro
        | outOfFuel => exact hown.elim
      · obtain ⟨rest, last, moment, final, hcomes, hlast⟩ :=
          ih (h.inside hasks hpermits hheap) hinner
        exact ⟨rest, last, moment, final, .inside hasks hcomes, hlast⟩

end History

/-! ## Any run -/

theorem begins_any (fuel : Nat) (task : Task) (machine : Machine) :
    (History.all .any).Begins fuel task machine :=
  ⟨True.intro, True.intro, fun _ => True.intro, fun _ _ _ _ => True.intro⟩

/-- A run that does not lack fuel ends alike with more. -/
theorem run_succ {fuel : Nat} {task : Task} {machine : Machine}
    (h : ∀ last, Task.run fuel task machine ≠ .error .outOfFuel last) :
    Task.run (fuel + 1) task machine = Task.run fuel task machine := by
  induction fuel generalizing task machine with
  | zero => exact absurd rfl (h machine)
  | succ fuel ih =>
      exact (begins_any (fuel + 1) task machine).traced.finished .whole (begins_any _ _ _).safe
        (.refl _) (fun _ _ hfinished => ih hfinished) h

theorem run_of_le {fuel more : Nat} {task : Task} {machine : Machine} (hle : fuel ≤ more)
    (h : ∀ last, Task.run fuel task machine ≠ .error .outOfFuel last) :
    Task.run more task machine = Task.run fuel task machine := by
  induction hle with
  | refl => rfl
  | step _ ih =>
      rw [run_succ, ih]
      rw [ih]
      exact h

end Lox.Run
