import Lox.Proofs.Run.Twins
import Lox.Proofs.Scope.Renaming

/-!
# Renamed variables make no difference

A program in which a local variable or a parameter is renamed is resolved as the program is, and
does the same on every new machine.
-/

namespace Lox.Run

open Scope (Distances)

/-- How the run of a program ends, as far as it is seen. A run that never ends lacks fuel, however
much there is. -/
inductive Ending where
  | finished
  | fault (message : String) (line : Nat)
  | refused (message : String)
  | outOfFuel

/-- How an action ends. -/
def Outcome.ending {α : Type} : Outcome α → Ending
  | .ok _ _ => .finished
  | .error (.fault error) _ => .fault error.fault.message error.token.line
  | .error (.refused message) _ => .refused message
  | .error .outOfFuel _ => .outOfFuel

theorem flush_alike {machine machine' : Machine} (hsink : machine'.sink = machine.sink)
    (houtput : machine'.output = machine.output) :
    (Outcome.machine (flush machine')).output = (Outcome.machine (flush machine)).output ∧
      Outcome.ending (flush machine') = Outcome.ending (flush machine) := by
  simp only [flush, settle, hsink, houtput]
  cases machine.sink.flush machine.output with
  | mk refused output => cases refused <;> exact ⟨rfl, rfl⟩

variable {change : Renaming} {distances distances' : Distances} {program : List Stmt}

/-- The comparison of a program and the renamed one. -/
def renamingComparison (change : Renaming) (distances : Distances) : Comparison :=
  ⟨(· = change.pairing distances), 0⟩

/-- Programs with like outcomes are seen to do the same, if no line differs. -/
theorem ProgramsAlike.seen {fuel : Nat} {machine : Machine} {outcome outcome' : Outcome Flow}
    (h : ProgramsAlike (renamingComparison change distances) fuel program machine outcome
      outcome') :
    (Outcome.machine (flushed outcome')).output = (Outcome.machine (flushed outcome)).output ∧
      Outcome.ending (flushed outcome') = Outcome.ending (flushed outcome) := by
  cases h with
  | finished htwin => exact flush_alike htwin.sink htwin.output.eq
  | @fault error error' later after after' hraised htwin =>
      obtain ⟨hfault, pairing, -, -, -, -, rfl, -, -, hline⟩ := hraised
      refine ⟨htwin.output.eq, ?_⟩
      have hsame : error'.token.line = error.token.line := hline
      rw [flushed, flushed, Outcome.ending, Outcome.ending, hfault, hsame]
  | refused message htwin => exact ⟨htwin.output.eq, rfl⟩
  | outOfFuel htwin => exact ⟨htwin.output.eq, rfl⟩

/-- Renaming a local variable or a parameter, together with the uses that are matched with it, to a
name that is new makes no difference: the program is accepted with the same distance for every
expression, and on a new machine it writes the same and ends alike, for any clock and sink and with
any fuel. -/
theorem renamed_program_does_the_same {source : String} {nextId last : NodeId}
    (hchecked : Checked source nextId program distances last) (change : Renaming)
    (hnew : NewName program change.new) :
    ∃ distances', Scope.resolve (renameProgram change distances program) = (distances', []) ∧
      (∀ id : NodeId, distances'[id]? = distances[id]?) ∧
      ∀ clock sink fuel,
        let outcome := interpret fuel program distances (.start clock sink)
        let outcome' := interpret fuel (renameProgram change distances program) distances'
          (.start clock sink)
        (Outcome.machine outcome').output = (Outcome.machine outcome).output ∧
          Outcome.ending outcome' = Outcome.ending outcome := by
  have hformed := hnew.nameable hchecked.formed
  have hlawful := fun o ho => hchecked.lawful o ho .alreadyDeclared
  obtain ⟨distances', hresolve, hsame⟩ := resolve_renameProgram hnew.keyword hformed
    hchecked.useNodes_fresh.nodup hchecked.resolved
  refine ⟨distances', hresolve, hsame, fun clock sink fuel => ?_⟩
  have hmachine : ((Machine.start clock sink).learn distances).Twin
      (renamingComparison change distances) (fun _ => .same) []
      ((Machine.start clock sink).learn distances') := by
    refine Machine.twin_start clock sink rfl (.inl rfl) rfl rfl ?_
    rintro _ rfl id id' distance ⟨rfl, rfl⟩
    exact ⟨rfl, hsame id'⟩
  have hinformed := (informed_start clock sink).learn hchecked
  have hbelongs := ((informed_start clock sink).begins hchecked).2
  have halike := (programsAlike hinformed hbelongs hmachine rfl
    (renameProgram_twin hnew.keyword hformed hlawful) fuel).seen
  rwa [← interpret_eq_flushed, ← interpret_eq_flushed] at halike

/-- The block that declares and uses a variable, once this is called `b`. -/
def renamedBlock : List Stmt :=
  [.block [.var ⟨.identifier, "b", 1⟩ none, .expression (.var 0 ⟨.identifier, "b", 1⟩)]]

theorem renamed_program_does_the_same_block :
    Checked "\x7bvar a; a;\x7d" 0 [.block blockBody] (Scope.resolve [.block blockBody]).1 1 ∧
      NewName [.block blockBody] "b" ∧
      ∃ distances', Scope.resolve renamedBlock = (distances', []) ∧
        (∀ id : NodeId, distances'[id]? = (Scope.resolve [.block blockBody]).1[id]?) ∧
        ∀ clock sink fuel,
          let outcome := interpret fuel [.block blockBody] (Scope.resolve [.block blockBody]).1
            (.start clock sink)
          let outcome' := interpret fuel renamedBlock distances' (.start clock sink)
          (Outcome.machine outcome').output = (Outcome.machine outcome).output ∧
            Outcome.ending outcome' = Outcome.ending outcome := by
  have hchecked : Checked "\x7bvar a; a;\x7d" 0 [.block blockBody]
      (Scope.resolve [.block blockBody]).1 1 := ⟨by rfl, by rfl, by rfl⟩
  have hnew : NewName [.block blockBody] "b" :=
    ⟨fun keyword => by cases keyword <;> decide, by decide⟩
  have hrenamed : renameProgram ⟨[0], "a", "b"⟩ (Scope.resolve [.block blockBody]).1
      [.block blockBody] = renamedBlock := by rfl
  refine ⟨hchecked, hnew, ?_⟩
  rw [← hrenamed]
  exact renamed_program_does_the_same hchecked ⟨[0], "a", "b"⟩ hnew

end Lox.Run
