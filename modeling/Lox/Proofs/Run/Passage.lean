import Lox.Proofs.Heap.Founded
import Lox.Proofs.Run.Confined
import Lox.Proofs.Run.Control

/-!
# What a machine passes through

A machine in use passes through states: tasks begin and end inside of others, and between them it
learns distances and flushes its output. In each of them the heap is founded, with no reference to
what is not there, and a link that was made once stays as it is.
-/

namespace Lox.Run

open Scope (Distances)

variable {fuel rest : Nat} {task inner : Task} {machine start moment : Machine}

/-! ## What a step asks for -/

/-- A step ends as soon as something that it asks for is interrupted, on the heap of then. -/
theorem Traced.diverts {turn : Turn} {control : Control}
    {expect : turn.task.Result → Machine → Prop} {heap : Heap}
    {outcome : Runner → Outcome turn.task.Result} (h : Traced turn control expect heap outcome)
    (hgoes : turn.Goes outcome) (hsafe : turn.Safe)
    (hheap : Heap.Changes turn.rules turn.machine.heap heap) {inner : Task}
    {start after : Machine} {interrupt : Interrupt} {other halting : Runner}
    (hother : ∀ task machine, (task, machine) ≠ (inner, start) →
      other task machine = turn.sub task machine)
    (hdiffers : outcome other ≠ outcome turn.sub)
    (hsame : ∀ task machine, (task, machine) ≠ (inner, start) →
      halting task machine = turn.sub task machine)
    (hhalting : halting inner start = .error interrupt after)
    (hcontrol : after.control = start.control) :
    ∃ last, outcome halting = .error interrupt last ∧ last.heap = after.heap := by
  induction h with
  | give _ _ _ => exact absurd rfl hdiffers
  | halt _ _ _ => exact absurd rfl hdiffers
  | @ask heap first moment leave next hchanges hpermits hleave _ ih =>
      have hmoment := hheap.trans hchanges
      by_cases hcase : (first, moment) = (inner, start)
      · cases hcase
        exact ⟨leave after, by simp only [asking, hhalting], (hleave after hcontrol).2⟩
      · cases hanswer : turn.sub first moment with
        | error failure last =>
            exact absurd (by simp only [asking, hother _ _ hcase, hanswer]) hdiffers
        | ok a last =>
            have hevolves := answered (hsafe first moment hgoes.asks hpermits hmoment) hanswer
            simp only [asking, hother _ _ hcase, hsame _ _ hcase, hanswer] at hdiffers ⊢
            exact ih a last hanswer hevolves (.answer hgoes hanswer)
              (hmoment.trans hevolves.heap) hdiffers

/-- A runner that halts with a heap where something is asked for makes the step end with it. -/
theorem Asks.diverts (h : Asks (Task.run fuel) task machine inner start) (heap : Heap) :
    ∃ halting : Runner,
      (∀ task machine, (task, machine) ≠ (inner, start) →
        halting task machine = Task.run fuel task machine) ∧
      halting inner start = .error .outOfFuel { start with heap := heap } ∧
        ∃ last, task.step halting machine = .error .outOfFuel last ∧ last.heap = heap := by
  classical
  let halting : Runner := fun task machine =>
    if (task, machine) = (inner, start) then .error .outOfFuel { start with heap := heap }
    else Task.run fuel task machine
  have hsame : ∀ task machine, (task, machine) ≠ (inner, start) →
      halting task machine = Task.run fuel task machine := fun task machine hne => if_neg hne
  have hhalting : halting inner start = .error .outOfFuel { start with heap := heap } := if_pos rfl
  obtain ⟨other, hother, hdiffers⟩ := h
  have hbegins := begins_any (fuel + 1) task machine
  exact ⟨halting, hsame, hhalting, hbegins.traced.diverts .whole hbegins.safe (.refl _) hother
    hdiffers hsame hhalting rfl⟩

/-- A step keeps what is not held if it ends where something is asked for, on a heap that keeps it. -/
theorem Asks.keeps {outset : Outset} (h : Asks (Task.run fuel) task machine inner start)
    (hresides : Resides outset machine) {heap : Heap}
    (hkeeps : Resides outset start → outset.Keeps start.heap heap) :
    outset.Keeps machine.heap heap := by
  obtain ⟨halting, hsame, hhalting, last, hlast, hheap⟩ := h.diverts heap
  have hsparing : SparingRunner outset halting := by
    intro task machine hresides
    by_cases hcase : (task, machine) = (inner, start)
    · cases hcase
      refine ⟨rfl, ?_⟩
      rw [hhalting]
      exact ⟨hkeeps hresides, rfl⟩
    · refine ⟨rfl, ?_⟩
      rw [hsame _ _ hcase]
      exact (run_spares outset fuel task machine hresides).2
  have hspared : Spared outset machine (Outcome.machine (task.step halting machine)) :=
    (step_spares hsparing task machine hresides).spared
  rw [hlast] at hspared
  exact hheap ▸ hspared.heap

/-! ## Grounded machines -/

/-- The machine is in an environment of its heap, there are no dangling references, and links lead
to what was made before. -/
structure Grounded (machine : Machine) : Prop where
  resides : Resides .nothing machine
  ordered : Outset.nothing.Ordered machine.heap
  grown : Heap.fresh.Grows machine.heap

namespace Grounded

theorem founded (h : Grounded machine) : machine.heap.Founded :=
  h.resides.heap.founded h.ordered h.grown

theorem environment_lt (h : Grounded machine) :
    machine.environment < machine.heap.environments.size :=
  Nat.lt_of_not_le (Outset.holds_nothing.mp h.resides.environment)

theorem new (clock : Nat → Float) (sink : Sink) : Grounded (.start clock sink) where
  resides := ⟨Outset.fresh_confines, Outset.fresh_confines.globals⟩
  ordered := Outset.fresh_ordered
  grown := .refl _

/-- Only heap and environment count. -/
theorem congr {other : Machine} (h : Grounded machine) (hheap : other.heap = machine.heap)
    (henvironment : other.environment = machine.environment) : Grounded other where
  resides := by
    refine ⟨hheap ▸ h.resides.heap, ?_⟩
    rw [hheap, henvironment]
    exact h.resides.environment
  ordered := hheap ▸ h.ordered
  grown := hheap ▸ h.grown

theorem run (h : Grounded machine) (fuel : Nat) (task : Task) :
    Grounded (Outcome.machine (Task.run fuel task machine)) := by
  have hspared := (run_spares .nothing fuel task machine h.resides).spared
  exact ⟨h.resides.spared hspared, hspared.heap.ordered h.ordered,
    h.grown.trans (begins_any fuel task machine).evolves.heap.grows⟩

theorem asks (h : Grounded machine) (hasks : Asks (Task.run fuel) task machine inner start) :
    Grounded start := by
  have hresides : Resides .nothing start := by
    apply Classical.byContradiction
    intro hnone
    -- a step that halts with an empty heap has lost the globals
    have hkeeps : Outset.nothing.Keeps machine.heap ⟨#[], #[], #[], #[]⟩ :=
      hasks.keeps h.resides fun hresides => absurd hresides hnone
    exact Outset.holds_nothing.mp hkeeps.confined.globals (Nat.zero_le _)
  have hkeeps := hasks.keeps h.resides fun hresides => .refl hresides.heap
  exact ⟨hresides, hkeeps.ordered h.ordered,
    h.grown.trans ((begins_any (fuel + 1) task machine).asked hasks).2.1.grows⟩

theorem comes {last : Task} (h : Grounded machine)
    (hcomes : Comes fuel task machine rest last moment) : Grounded moment := by
  induction hcomes with
  | here => exact h
  | inside hasks _ ih => exact ih (h.asks hasks)

theorem flush (h : Grounded machine) : Grounded (Outcome.machine (Run.flush machine)) := by
  rw [Run.flush, settle]
  split <;> exact h.congr rfl rfl

end Grounded

variable {clock : Nat → Float} {sink : Sink} {state last : Machine}

theorem Used.grounded (h : Used clock sink machine) : Grounded machine := by
  induction h with
  | start => exact .new clock sink
  | learn distances _ ih => exact ih.congr rfl rfl
  | run fuel task _ ih => exact ih.run fuel task
  | flush _ ih => exact ih.flush

/-! ## Passages -/

/-- A new machine was used, passed through a state, and has become the machine `last`. It is in a
state before and after each use, and when a task begins or ends inside another one. -/
inductive Passes (clock : Nat → Float) (sink : Sink) : (state last : Machine) → Prop where
  | here {machine : Machine} : Used clock sink machine → Passes clock sink machine machine
  | begins {fuel rest : Nat} {task inner : Task} {machine moment : Machine} :
      Used clock sink machine → Comes fuel task machine rest inner moment →
        Passes clock sink moment (Outcome.machine (Task.run fuel task machine))
  | ends {fuel rest : Nat} {task inner : Task} {machine moment : Machine} :
      Used clock sink machine → Comes fuel task machine rest inner moment →
        Passes clock sink (Outcome.machine (Task.run rest inner moment))
          (Outcome.machine (Task.run fuel task machine))
  | learn {state machine : Machine} (distances : Distances) :
      Passes clock sink state machine → Passes clock sink state (machine.learn distances)
  | run {state machine : Machine} (fuel : Nat) (task : Task) :
      Passes clock sink state machine →
        Passes clock sink state (Outcome.machine (Task.run fuel task machine))
  | flush {state machine : Machine} :
      Passes clock sink state machine → Passes clock sink state (Outcome.machine (flush machine))

theorem heap_flush (machine : Machine) :
    (Outcome.machine (flush machine)).heap = machine.heap := by
  rw [flush, settle]
  split <;> rfl

namespace Passes

theorem grounded (h : Passes clock sink state last) : Grounded state := by
  induction h with
  | here hused => exact hused.grounded
  | begins hused hcomes => exact hused.grounded.comes hcomes
  | ends hused hcomes => exact (hused.grounded.comes hcomes).run _ _
  | learn _ _ ih | run _ _ _ ih | flush _ ih => exact ih

/-- What a machine becomes has the heap of the state after some changes. -/
theorem changes (h : Passes clock sink state last) :
    Heap.Changes (History.all .any).rules state.heap last.heap := by
  induction h with
  | here _ => exact .refl _
  | begins _ hcomes =>
      obtain ⟨hbegins, -, -, hafter⟩ := (begins_any _ _ _).comes hcomes
      exact hbegins.evolves.heap.trans hafter
  | ends _ hcomes =>
      obtain ⟨-, -, -, hafter⟩ := (begins_any _ _ _).comes hcomes
      exact hafter
  | learn _ _ ih => exact ih
  | run fuel task _ ih => exact ih.trans (begins_any fuel task _).evolves.heap
  | flush _ ih =>
      rw [heap_flush]
      exact ih

end Passes

end Lox.Run
