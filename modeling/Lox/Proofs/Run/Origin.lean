import Lox.Proofs.Run.Twins

/-!
# Where an error comes from

A run that ends with an error has come to one task that raised it, and passed it on since. That task
is about one expression of the program, which is known by its identity.
-/

namespace Lox

theorem Expr.Twin.id {pairing : Pairing} {scopes : List Renamer} {e e' : Expr}
    (h : e.Twin pairing scopes e') : pairing.node e.id e'.id := by
  cases h with
  | literal _ hid => exact hid
  | grouping hid _ => exact hid
  | unary hid _ _ => exact hid
  | binary hid _ _ _ => exact hid
  | logical hid _ _ _ => exact hid
  | var huse => exact huse.node
  | assign huse _ => exact huse.node
  | call hid _ _ _ => exact hid
  | get hid _ _ => exact hid
  | set hid _ _ _ => exact hid
  | super_ huse _ => exact huse.node
  | this_ huse => exact huse.node

namespace Run

open Scope (Place)

/-! ## One task raises an error -/

/-- A step that asks for something that is interrupted ends there, whatever is left to ask for. -/
theorem Traced.interrupts {turn : Turn} {control : Control}
    {expect : turn.task.Result → Machine → Prop} {heap : Heap}
    {outcome : Runner → Outcome turn.task.Result} (h : Traced turn control expect heap outcome)
    (hgoes : turn.Goes outcome) (hsafe : turn.Safe)
    (hheap : Heap.Changes turn.rules turn.machine.heap heap) {inner : Task}
    {start after : Machine} {interrupt : Interrupt}
    (hinner : turn.sub inner start = .error interrupt after) {other : Runner}
    (hother : ∀ task machine, (task, machine) ≠ (inner, start) →
      other task machine = turn.sub task machine)
    (hdiffers : outcome other ≠ outcome turn.sub) :
    (∃ last, outcome turn.sub = .error interrupt last) ∧
      ∀ runner : Runner, runner inner start = turn.sub inner start →
        (∀ task machine a last, turn.sub task machine = .ok a last →
          runner task machine = turn.sub task machine) → outcome runner = outcome turn.sub := by
  induction h with
  | give _ _ _ => exact absurd rfl hdiffers
  | halt _ _ _ => exact absurd rfl hdiffers
  | @ask heap first moment leave next hchanges hpermits _ _ ih =>
      have hmoment := hheap.trans hchanges
      by_cases hcase : (first, moment) = (inner, start)
      · cases hcase
        refine ⟨⟨leave after, by simp only [asking, hinner]⟩, fun runner hsame _ => ?_⟩
        simp only [asking, hsame, hinner]
      · cases hanswer : turn.sub first moment with
        | error failure last =>
            exact absurd (by simp only [asking, hother _ _ hcase, hanswer]) hdiffers
        | ok a last =>
            have hevolves := answered (hsafe first moment hgoes.asks hpermits hmoment) hanswer
            simp only [asking, hother _ _ hcase, hanswer] at hdiffers ⊢
            obtain ⟨hend, hrest⟩ := ih a last hanswer hevolves (.answer hgoes hanswer)
              (hmoment.trans hevolves.heap) hdiffers
            refine ⟨hend, fun runner hsame hanswers => ?_⟩
            rw [hanswers first moment a last hanswer, hanswer]
            exact hrest runner hsame hanswers

section

variable {fuel rest : Nat} {task inner inner' last : Task}
  {machine start start' moment after after' : Machine} {interrupt interrupt' : Interrupt}

theorem Asks.interrupted (h : Asks (Task.run fuel) task machine inner start)
    (hinner : Task.run fuel inner start = .error interrupt after) :
    ∃ final, Task.run (fuel + 1) task machine = .error interrupt final := by
  obtain ⟨other, hother, hdiffers⟩ := h
  have hbegins := begins_any (fuel + 1) task machine
  exact (hbegins.traced.interrupts .whole hbegins.safe (.refl _) hinner hother hdiffers).1

/-- At most one of the tasks that are asked for is interrupted. -/
theorem Asks.unique (h : Asks (Task.run fuel) task machine inner start)
    (hinner : Task.run fuel inner start = .error interrupt after)
    (h' : Asks (Task.run fuel) task machine inner' start')
    (hinner' : Task.run fuel inner' start' = .error interrupt' after') :
    (inner', start') = (inner, start) := by
  obtain ⟨other, hother, hdiffers⟩ := h
  obtain ⟨other', hother', hdiffers'⟩ := h'
  have hbegins := begins_any (fuel + 1) task machine
  have hsame := (hbegins.traced.interrupts .whole hbegins.safe (.refl _) hinner hother hdiffers).2
  by_contra hne
  refine hdiffers' (hsame other' (hother' _ _ (Ne.symm hne)) ?_)
  intro task machine a last hanswer
  refine hother' task machine ?_
  rintro heq
  cases heq
  have hcontra : (.ok a last : Outcome _) = .error interrupt' after' := hanswer.symm.trans hinner'
  cases hcontra

theorem Comes.interrupted (h : Comes fuel task machine rest last moment)
    (hlast : Task.run rest last moment = .error interrupt after) :
    ∃ final, Task.run fuel task machine = .error interrupt final := by
  induction h with
  | here => exact ⟨after, hlast⟩
  | inside hasks _ ih =>
      obtain ⟨between, hinner⟩ := ih hlast
      exact hasks.interrupted hinner

end

section

variable {fuel : Nat} {task last last' : Task} {machine moment moment' : Machine}
  {error error' : RuntimeError}

/-- A task that raises an error asks for nothing that raises one. -/
theorem not_raised_of_answered {rest : Nat} {inner : Task} {start : Machine}
    (hasked : ∀ inner start, Asks (Task.run rest) last moment inner start →
      ∃ a after, Task.run rest inner start = .ok a after)
    (hasks : Asks (Task.run rest) last moment inner start)
    (h : Raised rest inner start error last' moment') : False := by
  obtain ⟨rest', final, hcomes, hend, -⟩ := h
  obtain ⟨between, hinner⟩ := hcomes.interrupted hend
  obtain ⟨a, after, hanswer⟩ := hasked _ _ hasks
  have hcontra : (.ok a after : Outcome inner.Result) = .error (.fault error) between :=
    hanswer.symm.trans hinner
  cases hcontra

/-- An error is raised in one task, at one moment. -/
theorem Raised.unique (h : Raised fuel task machine error last moment)
    (h' : Raised fuel task machine error' last' moment') : (last', moment') = (last, moment) := by
  obtain ⟨rest, final, hcomes, hend, hasked⟩ := h
  generalize hleft : rest + 1 = left at hcomes
  induction hcomes with
  | here =>
      subst hleft
      obtain ⟨rest', final', hcomes', hend', hasked'⟩ := h'
      cases hcomes' with
      | here => rfl
      | inside hasks hrest =>
          exact (not_raised_of_answered hasked hasks ⟨rest', final', hrest, hend', hasked'⟩).elim
  | @inside fuel left task inner last machine start moment hasks hrest ih =>
      subst hleft
      obtain ⟨rest', final', hcomes', hend', hasked'⟩ := h'
      generalize hleft' : rest' + 1 = left' at hcomes'
      cases hcomes' with
      | here =>
          cases hleft'
          exact (not_raised_of_answered hasked' hasks ⟨rest, final, hrest, hend, hasked⟩).elim
      | @inside _ _ _ inner' _ _ start' _ hasks' hrest' =>
          subst hleft'
          obtain ⟨between, hinner⟩ := hrest.interrupted hend
          obtain ⟨between', hinner'⟩ := hrest'.interrupted hend'
          cases hasks.unique hinner hasks' hinner'
          exact ih ⟨rest', final', hrest', hend', hasked'⟩ hend hasked rfl

end

/-! ## The expression that an error comes from -/

/-- The identity of the expression that a task is about: an expression itself, or the superclass of
a class. -/
def Task.origin? : Task → Option NodeId
  | evaluate e => some e.id
  | execute (.class_ _ (some superclass) _) => some superclass.id
  | _ => none

theorem Task.Twin.origin {pairing : Pairing} {scopes : List Renamer} {task task' : Task}
    (h : task.Twin pairing scopes task') {id : NodeId} (horigin : task.origin? = some id) :
    ∃ id', pairing.node id id' := by
  cases h with
  | evaluate he =>
      cases horigin
      exact ⟨_, he.id⟩
  | execute hs =>
      cases hs with
      | class_ _ hsuper _ =>
          cases hsuper with
          | none => cases horigin
          | some he =>
              cases horigin
              exact ⟨_, he.id⟩
      | _ => cases horigin
  | _ => cases horigin

/-- Makes a class whose methods have an environment, and assigns it to its name. -/
def makeClass (name : Token) (methods : List FunctionDecl) (superclass : Option ClassId)
    (place : EnvironmentId) : Action Unit := do
  let id ← allocate fun heap =>
    heap.addClass ⟨name.lexeme, superclass, methodTable place methods⟩
  assign (← here) name (.class_ id)

/-- A class is made if its name is bound. -/
theorem makeClass_ends {machine : Machine} {name : Token} (methods : List FunctionDecl)
    (superclass : Option ClassId) (place : EnvironmentId)
    (h : (machine.heap.binding? machine.environment name.lexeme).isSome) :
    ∃ after, makeClass name methods superclass place machine = .ok () after := by
  let added := machine.heap.addClass ⟨name.lexeme, superclass, methodTable place methods⟩
  have hbound : (added.2.binding? machine.environment name.lexeme).isSome := h
  have hassign : assign machine.environment name (.class_ added.1)
      { machine with heap := added.2 } = _ := assign_of_bound hbound
  exact ⟨_, hassign⟩

/-- A class without a superclass is always declared. -/
theorem executeClass_base (sub : Runner) (name : Token) (methods : List FunctionDecl)
    {machine : Machine} (hinside : machine.environment < machine.heap.environments.size) :
    ∃ after, executeClass sub name none methods machine = .ok () after := by
  let defined := machine.heap.define machine.environment name.lexeme .nil
  have hbound : (defined.binding? machine.environment name.lexeme).isSome := by
    rw [Heap.binding?_define_self hinside]
    rfl
  have hmade : ∃ after, makeClass name methods none machine.environment
      { machine with heap := defined } = .ok () after := makeClass_ends methods none _ hbound
  exact hmade

/-- An error comes from an expression of the program. -/
theorem Raised.origin {known : List Occurrence} {fuel : Nat} {task last : Task} {place : Place}
    {machine moment : Machine} {error : RuntimeError}
    (hstands : Stands known machine.distances place machine)
    (hbelongs : task.Belongs known place) (hraised : Raised fuel task machine error last moment) :
    ∃ id, last.origin? = some id := by
  have hfault := hraised.faults
  cases last with
  | evaluate e => exact ⟨e.id, rfl⟩
  | evaluateAll es => simp [Task.faults] at hfault
  | executeAll statements => simp [Task.faults] at hfault
  | execute s =>
      cases s with
      | class_ name superclass methods =>
          cases superclass with
          | some e => exact ⟨e.id, rfl⟩
          | none =>
              obtain ⟨rest, final, hcomes, hend, -⟩ := hraised
              obtain ⟨within, hwithin, -⟩ := (congruence_stepwise _ _).visits_before
                (congruence_outOfFuel _ _) hcomes.visits ⟨hstands, hbelongs⟩
              obtain ⟨after, hdeclared⟩ := executeClass_base (Task.run rest) name methods
                hwithin.inside
              have hnormal : Task.run (rest + 1) (.execute (.class_ name none methods)) moment =
                  .ok .normal after := by
                change (Bind.bind (executeClass _ _ _ _) _ : Action Flow) moment = _
                simp only [Bind.bind, EStateM.bind, hdeclared]
                rfl
              cases hnormal.symm.trans hend
      | _ => simp [Task.faults] at hfault

end Run

end Lox
