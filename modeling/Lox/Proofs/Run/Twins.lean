import Lox.Proofs.Run.Lockstep

/-!
# Runs of twin programs

Twin programs are run from twin machines that know their distances. No variable is lost then, so that
both runs raise the same error, at tokens that go together.
-/

namespace Lox.Run

open Scope (Distances Place ScopeFault)

variable {comparison : Comparison} {pairing : Pairing} {renamers : Renamers}
  {scopes : List Renamer} {machine machine' : Machine} {fuel : Nat} {task : Task}

/-! ## Errors of twin runs -/

/-- The run raises an error that its twin raises as well, in a task that is a twin of the one that
raises it here. -/
structure RaisedAlike (comparison : Comparison) (fuel : Nat) (task : Task) (machine : Machine)
    (error error' : RuntimeError) : Prop where
  fault : error'.fault = error.fault
  blamed : ∃ pairing scopes last last' moment, comparison.pairing pairing ∧
    last.Twin pairing scopes last' ∧ Raised fuel task machine error last moment ∧
      pairing.token error.token error'.token

/-- A variable that has a distance is found there, in a program without static errors. -/
theorem Raised.not_lost {known : List Occurrence} {nextId : NodeId} {place : Place} {e : Expr}
    {u : Use} {distance : Nat} {moment : Machine} {name : Token}
    (hinformed : Informed known nextId machine)
    (hstands : Stands known machine.distances place machine) (hbelongs : task.Belongs known place)
    (hraised : Raised fuel task machine (Heap.undefined name) (.evaluate e) moment)
    (huse : e.use? = some u) (hkind : u.kind ≠ .assign)
    (hdistance : machine.distances[u.node]? = some distance) : False := by
  obtain ⟨rest, final, hcomes, hend, -⟩ := hraised
  obtain ⟨within, hwithin, hinside⟩ := (congruence_stepwise _ _).visits_before
    (congruence_outOfFuel _ _) hcomes.visits ⟨hstands, hbelongs⟩
  have hmem : ⟨within, .use u⟩ ∈ known :=
    hinside.known (List.mem_map_of_mem (Expr.use?_mem huse))
  have hmatched : within.matched? u = some distance := by
    rw [← hinformed.matched within u hmem, hdistance]
  have hknown : moment.distances[u.node]? = some distance := by
    rw [hwithin.distances, hdistance]
  obtain ⟨target, hgoes⟩ := goesToScope_of_matched hwithin hinside huse
    (hinformed.lawful _ hmem _) hmatched hknown
  exact hgoes.defined hkind _ _ _ _ hend

theorem Interrupt.Twin.raisedAlike {known : List Occurrence} {nextId : NodeId} {place : Place}
    {error error' : RuntimeError} (hinformed : Informed known nextId machine)
    (hstands : Stands known machine.distances place machine) (hbelongs : task.Belongs known place)
    (hmachine : machine.Twin comparison renamers scopes machine')
    (h : (Interrupt.fault error).Twin comparison fuel task machine (.fault error')) :
    RaisedAlike comparison fuel task machine error error' := by
  cases h with
  | @fault _ _ last last' moment pairing within hraised hpairing htwin hagree =>
      cases hagree with
      | same fault htoken =>
          exact ⟨rfl, pairing, within, last, last', moment, hpairing, htwin, hraised, htoken⟩
      | lost hlast huse hkind hmatched htoken =>
          subst hlast
          have hdistance := (hmachine.distances pairing hpairing _ _ _ hmatched).1
          exact (hraised.not_lost hinformed hstands hbelongs huse hkind hdistance).elim

/-! ## Programs -/

/-- The outcomes of a program and of its twin. -/
inductive ProgramsAlike (comparison : Comparison) (fuel : Nat) (program : List Stmt)
    (machine : Machine) : Outcome Flow → Outcome Flow → Prop where
  | finished {flow : Flow} {later : Renamers} {after after' : Machine} :
      after.Twin comparison later [] after' →
        ProgramsAlike comparison fuel program machine (.ok flow after) (.ok flow after')
  | fault {error error' : RuntimeError} {later : Renamers} {after after' : Machine} :
      RaisedAlike comparison fuel (.executeAll program) machine error error' →
        after.Twin comparison later [] after' →
          ProgramsAlike comparison fuel program machine (.error (.fault error) after)
            (.error (.fault error') after')
  | refused (message : String) {later : Renamers} {after after' : Machine} :
      after.Twin comparison later [] after' →
        ProgramsAlike comparison fuel program machine (.error (.refused message) after)
          (.error (.refused message) after')
  | outOfFuel {later : Renamers} {after after' : Machine} :
      after.Twin comparison later [] after' →
        ProgramsAlike comparison fuel program machine (.error .outOfFuel after)
          (.error .outOfFuel after')

/-- A program that has been executed flushes the output. -/
def flushed : Outcome Flow → Outcome Unit
  | .ok _ after => flush after
  | .error interrupt after => .error interrupt after

theorem interpret_eq_flushed (fuel : Nat) (program : List Stmt) (distances : Distances)
    (machine : Machine) :
    interpret fuel program distances machine =
      flushed (Task.run fuel (.executeAll program) (machine.learn distances)) := by
  rw [interpret_eq]
  cases Task.run fuel (.executeAll program) (machine.learn distances) <;> rfl

/-- Twin programs have like outcomes. -/
theorem programsAlike {known : List Occurrence} {nextId : NodeId} {program program' : List Stmt}
    (hinformed : Informed known nextId machine)
    (hbelongs : (Task.executeAll program).Belongs known .top)
    (hmachine : machine.Twin comparison renamers [] machine')
    (hpairing : comparison.pairing pairing) (htwin : Stmt.TwinAll pairing [] program program')
    (fuel : Nat) :
    ProgramsAlike comparison fuel program machine (Task.run fuel (.executeAll program) machine)
      (Task.run fuel (.executeAll program') machine') := by
  have hstands : Stands known machine.distances .top machine :=
    ⟨hinformed.heap, rfl, hinformed.environment⟩
  have hrun := runsAlike comparison fuel pairing [] renamers (.executeAll program)
    (.executeAll program') machine machine' hpairing (.executeAll htwin) hmachine
  cases hend : Task.run fuel (.executeAll program) machine with
  | ok flow after =>
      cases hend' : Task.run fuel (.executeAll program') machine' with
      | ok flow' after' =>
          rw [hend, hend'] at hrun
          obtain ⟨hsame, later, hfollows⟩ := hrun
          change flow = flow' at hsame
          subst hsame
          exact .finished hfollows.twin
      | error interrupt' after' =>
          rw [hend, hend'] at hrun
          exact hrun.elim
  | error interrupt after =>
      cases hend' : Task.run fuel (.executeAll program') machine' with
      | ok flow' after' =>
          rw [hend, hend'] at hrun
          exact hrun.elim
      | error interrupt' after' =>
          rw [hend, hend'] at hrun
          obtain ⟨hinterrupt, later, hfollows⟩ := hrun
          cases interrupt with
          | fault error =>
              cases interrupt' with
              | fault error' =>
                  exact .fault (hinterrupt.raisedAlike hinformed hstands hbelongs hmachine) hfollows.twin
              | _ => cases hinterrupt
          | refused message =>
              cases hinterrupt
              exact .refused message hfollows.twin
          | outOfFuel =>
              cases hinterrupt
              exact .outOfFuel hfollows.twin

/-- New machines that have learned the distances of twin programs. -/
theorem Machine.twin_start {distances distances' : Distances} (clock : Nat → Float) (sink : Sink)
    (hpairing : comparison.pairing pairing) (hrenamer : pairing.renamer .same)
    (htoken : pairing.token default default) (hahead : comparison.ahead = 0)
    (hdistances : ∀ pairing, comparison.pairing pairing → ∀ id id' distance,
      pairing.matched id id' distance → distances[id]? = distance ∧ distances'[id']? = distance) :
    ((Machine.start clock sink).learn distances).Twin comparison (fun _ => .same) []
      ((Machine.start clock sink).learn distances') := by
  refine ⟨Heap.twin_fresh hpairing hrenamer htoken, rfl, rfl, rfl, rfl, rfl, rfl,
    ⟨rfl, rfl, by rw [hahead]; rfl⟩, fun pairing hpairing id id' distance hmatched => ?_⟩
  rw [getElem?_learn, getElem?_learn]
  obtain ⟨hfirst, hsecond⟩ := hdistances pairing hpairing id id' distance hmatched
  rw [hfirst, hsecond]
  exact ⟨Option.or_none .., Option.or_none ..⟩

end Lox.Run
