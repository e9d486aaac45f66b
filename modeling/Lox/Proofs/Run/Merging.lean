import Lox.Proofs.Grammar.Renumbering
import Lox.Proofs.Run.Pieces
import Mathlib.Data.List.Nodup
import Mathlib.Data.List.Pairwise

/-!
# One supply of identities for everything that is read

All readings of programs and expressions draw their identities from one supply. So no two
expressions in all that was read share an identity, and the distances of a program say nothing
about the uses in another one: a machine that learns them keeps whatever it knows already.
-/

namespace Lox.Run

open Grammar (Fresh Setting readExpression readProgram)
open Scope (Distances)

/-! ## What is read -/

/-- A reading of a program or of a single expression, from a cursor anywhere. -/
inductive Reading where
  | program (setting : Setting) (cursor : Grammar.State)
  | expression (setting : Setting) (cursor : Grammar.State)

/-- What a reading gives, whether or not errors were noted: the statements of a program or an
expression, and the next unused identity. -/
structure Given where
  statements : List Stmt
  expression : Option Expr
  nextId : NodeId

/-- Reads with identities from `nextId` on. -/
def Reading.give (nextId : NodeId) : Reading → Given
  | .program setting cursor =>
      let program := readProgram setting (cursor.renumbered nextId)
      ⟨program.statements, none, program.nextId⟩
  | .expression setting cursor =>
      let (outcome, after) := readExpression setting (cursor.renumbered nextId)
      ⟨[], outcome.toOption, after.nextId⟩

namespace Given

/-- The identities in what was read. -/
def nodes (given : Given) : List NodeId :=
  Stmt.nodesAll given.statements ++ Expr.nodesOpt given.expression

/-- The distances of the uses in what was read, whatever rules are broken. -/
def distances (given : Given) : Distances :=
  (Scope.resolve given.statements).1

/-- Only uses in what was read have distances. -/
theorem mem_nodes {given : Given} {node : NodeId} {distance : Nat}
    (h : given.distances[node]? = some distance) : node ∈ given.nodes := by
  refine List.mem_append_left _ ((useNodes_programSites_subperm given.statements).subset ?_)
  by_contra hnode
  rw [Given.distances, Scope.untouched_of_resolve rfl hnode] at h
  cases h

end Given

theorem Reading.give_fresh (reading : Reading) (nextId : NodeId) :
    Fresh (reading.give nextId).nodes nextId (reading.give nextId).nextId := by
  cases reading with
  | program setting cursor =>
      rw [Given.nodes, Reading.give, Expr.nodesOpt, List.append_nil]
      exact Grammar.readProgram_fresh setting (cursor.renumbered nextId)
  | expression setting cursor =>
      exact Grammar.readExpression_fresh setting (cursor.renumbered nextId)

/-! ## Sources for one machine -/

/-- What was read so far with identities from `first` on, the next unused identity, and the machine.
Readings and runs come in any order, however each of them ends: a run of something that was read,
with its distances, a run of a program without distances, a task, or nothing but a new output. -/
inductive Served (clock : Nat → Float) (sink : Sink) (first : NodeId) :
    List Given → NodeId → Machine → Prop where
  | start : Served clock sink first [] first (.start clock sink)
  | read {givens : List Given} {nextId : NodeId} {machine : Machine} (reading : Reading) :
      Served clock sink first givens nextId machine →
        Served clock sink first (givens ++ [reading.give nextId]) (reading.give nextId).nextId machine
  | interpret {givens : List Given} {nextId : NodeId} {machine : Machine} {given : Given}
      (fuel : Nat) : Served clock sink first givens nextId machine → given ∈ givens →
        Served clock sink first givens nextId
          (Outcome.machine (Run.interpret fuel given.statements given.distances machine))
  | unresolved {givens : List Given} {nextId : NodeId} {machine : Machine} (fuel : Nat)
      (program : List Stmt) : Served clock sink first givens nextId machine →
        Served clock sink first givens nextId (Outcome.machine (Run.interpret fuel program ∅ machine))
  | run {givens : List Given} {nextId : NodeId} {machine : Machine} (fuel : Nat) (task : Task) :
      Served clock sink first givens nextId machine →
        Served clock sink first givens nextId (Outcome.machine (Task.run fuel task machine))
  | restart {givens : List Given} {nextId : NodeId} {machine : Machine} :
      Served clock sink first givens nextId machine →
        Served clock sink first givens nextId { machine with output := .start }

/-- Running a program adds its distances to those that are known, and no others. -/
theorem interpret_distances (fuel : Nat) (program : List Stmt) (distances : Distances)
    (machine : Machine) :
    (Outcome.machine (interpret fuel program distances machine)).distances =
      (machine.learn distances).distances := by
  obtain ⟨output, hend⟩ := machine_interpret fuel program distances machine
  rw [hend]
  exact run_distances fuel (.executeAll program) (machine.learn distances)

namespace Served

variable {clock : Nat → Float} {sink : Sink} {first nextId : NodeId} {givens : List Given}
  {machine : Machine}

theorem fresh (h : Served clock sink first givens nextId machine) :
    Fresh (givens.flatMap Given.nodes) first nextId := by
  induction h with
  | start => exact Fresh.nil (Nat.le_refl first)
  | read reading _ ih =>
      rw [List.flatMap_append, List.flatMap_singleton]
      exact ih.append (reading.give_fresh _)
  | interpret _ _ _ ih => exact ih
  | unresolved _ _ _ ih => exact ih
  | run _ _ _ ih => exact ih
  | restart _ ih => exact ih

/-- Whatever distances are known are those of something that was read. -/
theorem known (h : Served clock sink first givens nextId machine) {node : NodeId} {distance : Nat}
    (hknown : machine.distances[node]? = some distance) :
    ∃ given ∈ givens, given.distances[node]? = some distance := by
  induction h with
  | start => cases hknown
  | read reading _ ih =>
      obtain ⟨given, hmem, hgiven⟩ := ih hknown
      exact ⟨given, List.mem_append_left _ hmem, hgiven⟩
  | @interpret givens nextId machine given fuel _ hmem ih =>
      rw [interpret_distances, getElem?_learn] at hknown
      cases hgiven : given.distances[node]? with
      | none => exact ih (by rwa [hgiven, Option.none_or] at hknown)
      | some other =>
          rw [hgiven, Option.some_or] at hknown
          exact ⟨given, hmem, hgiven.trans hknown⟩
  | unresolved fuel program _ ih =>
      rw [interpret_distances, getElem?_learn] at hknown
      exact ih hknown
  | run fuel task _ ih =>
      rw [run_distances] at hknown
      exact ih hknown
  | restart _ ih => exact ih hknown

/-- Different things that were read have no identity in common. -/
theorem disjoint (h : Served clock sink first givens nextId machine) :
    givens.Pairwise fun earlier later => earlier.nodes.Disjoint later.nodes :=
  (List.nodup_flatMap.mp h.fresh.nodup).2

theorem eq_of_shared (h : Served clock sink first givens nextId machine) {one other : Given}
    (hone : one ∈ givens) (hother : other ∈ givens) {node : NodeId} (hnode : node ∈ one.nodes)
    (hnode' : node ∈ other.nodes) : one = other := by
  by_contra hne
  have hsymm : Std.Symm fun earlier later : Given => earlier.nodes.Disjoint later.nodes :=
    ⟨fun _ _ hdisjoint _ hleft hright => hdisjoint hright hleft⟩
  exact h.disjoint.forall hone hother hne hnode hnode'

/-- A machine that learns the distances of something that was read keeps what it knows. -/
theorem learn_keeps (h : Served clock sink first givens nextId machine) {given : Given}
    (hmem : given ∈ givens) {node : NodeId} {distance : Nat}
    (hknown : machine.distances[node]? = some distance) :
    (machine.learn given.distances).distances[node]? = some distance := by
  rw [getElem?_learn, hknown]
  cases hgiven : given.distances[node]? with
  | none => rfl
  | some further =>
      obtain ⟨source, hsource, hdistance⟩ := h.known hknown
      obtain rfl := h.eq_of_shared hmem hsource (Given.mem_nodes hgiven) (Given.mem_nodes hdistance)
      rw [Option.some_or, ← hgiven, hdistance]

end Served

/-- Whatever is read, run and evaluated, in any order and with any errors, all expressions in all
that was read have different identities. So no two programs have a distance for the same identity,
and a run of something that was read, which adds its distances to those that the machine knows,
leaves every distance that is known as it is. -/
theorem identities_are_never_shared {clock : Nat → Float} {sink : Sink} {first nextId : NodeId}
    {givens : List Given} {machine : Machine}
    (h : Served clock sink first givens nextId machine) :
    (givens.flatMap Given.nodes).Nodup ∧
    (givens.Pairwise fun earlier later : Given => ∀ (node : NodeId) (distance : Nat),
      earlier.distances[node]? = some distance → later.distances[node]? = none) ∧
    ∀ given ∈ givens, ∀ (fuel : Nat) (node : NodeId) (distance : Nat),
      machine.distances[node]? = some distance →
        (Outcome.machine
          (interpret fuel given.statements given.distances machine)).distances[node]? =
            some distance := by
  refine ⟨h.fresh.nodup, h.disjoint.imp fun hdisjoint node distance hearlier => ?_,
    fun given hmem fuel node distance hknown => ?_⟩
  · refine Option.eq_none_iff_forall_ne_some.mpr fun other hlater => ?_
    exact hdisjoint (Given.mem_nodes hearlier) (Given.mem_nodes hlater)
  · rw [interpret_distances]
    exact h.learn_keeps hmem hknown

/-- An assignment to a number. The error is noted, and the number alone is what was read. -/
def misplacedTokens : List Token :=
  [⟨.number 1, "1", 1⟩, ⟨.symbol .equal, "=", 1⟩, ⟨.number 2, "2", 1⟩, ⟨.symbol .semicolon, ";", 1⟩]

theorem identities_are_never_shared_misplaced :
    let program := Reading.give 0 (.program (.standard misplacedTokens) (.start misplacedTokens 0))
    let expression := Reading.give program.nextId
      (.expression (.standard misplacedTokens) (.start misplacedTokens 0))
    [program, expression].flatMap Given.nodes = [0, 2] ∧
      ([program, expression].flatMap Given.nodes).Nodup := by
  intro program expression
  have hserved : Served (fun _ => 0) .unlimited 0 [program, expression] expression.nextId
      (.start (fun _ => 0) .unlimited) := Served.start.read _ |>.read _
  exact ⟨by decide +kernel, (identities_are_never_shared hserved).1⟩

end Lox.Run
