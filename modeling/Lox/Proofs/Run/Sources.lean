import Lox.Proofs.Grammar.Identity
import Lox.Proofs.Grammar.Shape
import Lox.Proofs.Run.Statements
import Lox.Proofs.Scope.Checking

/-!
# Sources fed to one machine

Sources without static errors are run on one machine, one after the other, however each run ends.
The machine knows the distances of all of them, and its heap stays congruent with their scopes.
-/

namespace Lox.Run

open Scope (Distances Frame Place ScopeFault)

variable {α : Type}

/-! ## One source -/

/-- The source has no static error. Read with identities from `nextId` on it is the program, whose
local names have the distances, and `last` is the next identity after it. -/
structure Accepted (source : String) (nextId : NodeId) (program : List Stmt)
    (distances : Distances) (last : NodeId) : Prop where
  lexical : lexicalErrors source = []
  parsed : Grammar.parse (tokens source) nextId = ⟨program, [], last⟩
  resolved : Scope.resolve program = (distances, [])

/-- Whatever lexical and syntax errors there are, what was read is the program, whose local names have
the distances. -/
structure Checked (source : String) (nextId : NodeId) (program : List Stmt)
    (distances : Distances) (last : NodeId) : Prop where
  tree : (Grammar.parse (tokens source) nextId).statements = program
  next : (Grammar.parse (tokens source) nextId).nextId = last
  resolved : Scope.resolve program = (distances, [])

theorem Accepted.checked {source : String} {nextId last : NodeId} {program : List Stmt}
    {distances : Distances} (h : Accepted source nextId program distances last) :
    Checked source nextId program distances last :=
  ⟨by rw [h.parsed], by rw [h.parsed], h.resolved⟩

namespace Checked

variable {source : String} {nextId last : NodeId} {program : List Stmt} {distances : Distances}

theorem fresh (h : Checked source nextId program distances last) :
    Grammar.Fresh (Stmt.nodesAll program) nextId last := by
  have hfresh := Grammar.parse_fresh (tokens source) nextId
  rwa [h.tree, h.next] at hfresh

theorem formed (h : Checked source nextId program distances last) :
    Stmt.FormedAll Token.Spelled program := by
  have hformed := Grammar.parse_formed Token.Spelled (tokens source) nextId
    fun _ hmem => spelled_of_mem_tokens hmem
  rwa [h.tree] at hformed

theorem useNodes_fresh (h : Checked source nextId program distances last) :
    Grammar.Fresh (useNodes (programSites program)) nextId last :=
  h.fresh.subperm (useNodes_programSites_subperm program)

/-- The distances are those of the uses at their places. -/
theorem matched (h : Checked source nextId program distances last) {place : Place} {u : Use}
    (hmem : ⟨place, .use u⟩ ∈ programSites program) : distances[u.node]? = place.matched? u :=
  Scope.matched_of_resolve (congrArg Prod.fst h.resolved) h.useNodes_fresh.nodup hmem

theorem untouched (h : Checked source nextId program distances last) {node : NodeId}
    (hnode : node ∉ useNodes (programSites program)) : distances[node]? = none :=
  Scope.untouched_of_resolve (congrArg Prod.fst h.resolved) hnode

theorem lawful (h : Checked source nextId program distances last) :
    ∀ occurrence ∈ programSites program, ∀ fault : ScopeFault,
      fault.arisesAt occurrence = false :=
  (Scope.lawful_iff_resolve program).mpr ⟨distances, h.resolved⟩

end Checked

/-! ## Running a program -/

theorem Outcome.Meets.related {related : Machine → Machine → Prop} {machine : Machine}
    {expect : α → Machine → Prop} {outcome : Outcome α}
    (h : Outcome.Meets related machine expect outcome) : related machine outcome.machine := by
  cases outcome with
  | ok a after => exact h.1
  | error interrupt after => exact h

/-- The machine with further distances. -/
def Machine.learn (machine : Machine) (distances : Distances) : Machine :=
  { machine with distances := machine.distances.insertMany distances.toList }

/-- A program is run by executing its statements with its distances known. -/
theorem interpret_eq (fuel : Nat) (program : List Stmt) (distances : Distances)
    (machine : Machine) :
    interpret fuel program distances machine =
      match Task.run fuel (.executeAll program) (machine.learn distances) with
      | .ok _ after => flush after
      | .error interrupt after => .error interrupt after := by
  change (Bind.bind (Task.run fuel (.executeAll program)) fun _ => flush : Action Unit)
    (machine.learn distances) = _
  simp only [Bind.bind, EStateM.bind]
  cases Task.run fuel (.executeAll program) (machine.learn distances) <;> rfl

/-- But for the output, the machine is at the end of a program what it is after its last statement. -/
theorem machine_interpret (fuel : Nat) (program : List Stmt) (distances : Distances)
    (machine : Machine) : ∃ output, Outcome.machine (interpret fuel program distances machine) =
      { Outcome.machine (Task.run fuel (.executeAll program) (machine.learn distances)) with
        output := output } := by
  rw [interpret_eq]
  cases Task.run fuel (.executeAll program) (machine.learn distances) with
  | ok flow after =>
      simp only [flush, settle]
      split <;> exact ⟨_, rfl⟩
  | error interrupt after => exact ⟨after.output, rfl⟩

theorem getElem?_learn (machine : Machine) (distances : Distances) (node : NodeId) :
    (machine.learn distances).distances[node]? =
      (distances[node]?).or machine.distances[node]? := by
  cases h : distances[node]? with
  | some distance =>
      have hmem : (node, distance) ∈ distances.toList :=
        Std.TreeMap.mem_toList_iff_getElem?_eq_some.mpr h
      have hdistinct := Std.TreeMap.distinct_keys_toList (t := distances)
      exact Std.TreeMap.getElem?_insertMany_list_of_mem (by simp) hdistinct hmem
  | none =>
      refine Std.TreeMap.getElem?_insertMany_list_of_contains_eq_false ?_
      rw [List.contains_eq_mem, decide_eq_false_iff_not]
      intro hmem
      obtain ⟨⟨other, distance⟩, hentry, rfl⟩ := List.mem_map.mp hmem
      rw [Std.TreeMap.mem_toList_iff_getElem?_eq_some.mp hentry] at h
      cases h

/-! ## All sources so far -/

/-- The machine after the runs of some programs, each from a source without static errors, and the
next identity. A run counts however it ends. -/
inductive Fed (clock : Nat → Float) (sink : Sink) :
    Machine → NodeId → List (List Stmt) → Prop where
  | start : Fed clock sink (.start clock sink) 0 []
  | feed {machine : Machine} {nextId last : NodeId} {programs : List (List Stmt)}
      {source : String} {program : List Stmt} {distances : Distances} (fuel : Nat) :
      Fed clock sink machine nextId programs → Accepted source nextId program distances last →
        Fed clock sink (Outcome.machine (interpret fuel program distances machine)) last
          (programs ++ [program])

/-- The sites in some programs. -/
def programsSites (programs : List (List Stmt)) : List Occurrence :=
  programs.flatMap programSites

/-- The machine is between two programs: it knows the distances of the uses in all programs so far,
which break no rule, and of no use that is yet to come. -/
structure Informed (known : List Occurrence) (nextId : NodeId) (machine : Machine) : Prop where
  heap : machine.heap.Congruent known
  environment : machine.environment = Heap.globals
  matched : ∀ place u, ⟨place, .use u⟩ ∈ known → machine.distances[u.node]? = place.matched? u
  used : ∀ node ∈ useNodes known, node < nextId
  unused : ∀ node, nextId ≤ node → machine.distances[node]? = none
  lawful : ∀ occurrence ∈ known, ∀ fault : ScopeFault, fault.arisesAt occurrence = false

theorem informed_start (clock : Nat → Float) (sink : Sink) {nextId : NodeId} :
    Informed [] nextId (.start clock sink) :=
  ⟨.fresh [], rfl, by simp, by simp, fun _ _ => rfl, by simp⟩

variable {known : List Occurrence} {nextId last : NodeId} {machine : Machine} {source : String}
  {program : List Stmt} {distances : Distances}

/-- The identities of a further program are new, so that its distances leave the others alone. -/
theorem Informed.learn (h : Informed known nextId machine)
    (hchecked : Checked source nextId program distances last) :
    Informed (known ++ programSites program) last (machine.learn distances) := by
  have hfresh := hchecked.useNodes_fresh
  refine ⟨?_, h.environment, ?_, ?_, ?_, ?_⟩
  · exact h.heap.widen (List.subset_append_left _ _)
  · intro place u hmem
    rw [getElem?_learn]
    rcases List.mem_append.mp hmem with hmem | hmem
    · have hnew : u.node ∉ useNodes (programSites program) := by
        intro hnode
        have hlow := (hfresh.bounds u.node hnode).1
        have hhigh := h.used u.node (Scope.mem_useNodes hmem)
        exact Nat.not_lt_of_le hlow hhigh
      rw [hchecked.untouched hnew, Option.none_or, h.matched place u hmem]
    · have hnode := (hfresh.bounds u.node (Scope.mem_useNodes hmem)).1
      rw [h.unused u.node hnode, Option.or_none, hchecked.matched hmem]
  · intro node hnode
    rw [Scope.useNodes_append] at hnode
    rcases List.mem_append.mp hnode with hnode | hnode
    · exact Nat.lt_of_lt_of_le (h.used node hnode) hfresh.le
    · exact (hfresh.bounds node hnode).2
  · intro node hle
    have hnew : node ∉ useNodes (programSites program) := by
      intro hnode
      exact Nat.not_lt_of_le hle (hfresh.bounds node hnode).2
    rw [getElem?_learn, hchecked.untouched hnew, Option.none_or,
      h.unused node (Nat.le_trans hfresh.le hle)]
  · intro occurrence hmem
    rcases List.mem_append.mp hmem with hmem | hmem
    · exact h.lawful occurrence hmem
    · exact hchecked.lawful occurrence hmem

theorem Informed.kept {after : Machine} (h : Informed known nextId machine)
    (hkept : Kept known machine after) : Informed known nextId after :=
  ⟨hkept.heap, hkept.environment.trans h.environment, by rw [hkept.distances]; exact h.matched,
    h.used, by rw [hkept.distances]; exact h.unused, h.lawful⟩

/-- The machine is at the first statement of a further program. -/
theorem Informed.begins (h : Informed known nextId machine)
    (hchecked : Checked source nextId program distances last) :
    Stands (known ++ programSites program) (machine.learn distances).distances .top
        (machine.learn distances) ∧
      (Task.executeAll program).Belongs (known ++ programSites program) .top := by
  have hlearned := h.learn hchecked
  exact ⟨⟨hlearned.heap, rfl, hlearned.environment⟩,
    List.subset_append_right _ _, hchecked.formed, rfl⟩

theorem congruence_outOfFuel (known : List Occurrence) (distances : Distances) :
    ∀ knowledge task machine, (congruence known distances).before knowledge task machine →
      (congruence known distances).after knowledge task machine (.error .outOfFuel machine) :=
  fun _ _ _ hbefore => Kept.refl hbefore.1.heap

/-- However a task at a place ends, it keeps scopes and environments together. -/
theorem run_kept (fuel : Nat) {place : Place} {task : Task}
    (hstands : Stands known distances place machine) (hbelongs : task.Belongs known place) :
    Kept known machine (Outcome.machine (Task.run fuel task machine)) := by
  have hkept := (congruence_stepwise known distances).run_kept (congruence_outOfFuel _ _) fuel
    place task machine ⟨hstands, hbelongs⟩
  exact Outcome.Meets.related hkept

/-- After a further program, however its run ends, the machine is informed of it as well. -/
theorem Informed.interpret (h : Informed known nextId machine)
    (hchecked : Checked source nextId program distances last) (fuel : Nat) :
    Informed (known ++ programSites program) last
      (Outcome.machine (Run.interpret fuel program distances machine)) := by
  obtain ⟨hstands, hbelongs⟩ := h.begins hchecked
  have hlearned := h.learn hchecked
  have hkept := run_kept fuel hstands hbelongs
  rw [interpret_eq]
  cases hend : Task.run fuel (.executeAll program) (machine.learn distances) with
  | ok result after =>
      rw [hend] at hkept
      have hflushed : Kept _ after (Outcome.machine (flush after)) :=
        Outcome.Meets.related (Steady.settle Sink.flush hkept.heap).2
      exact (hlearned.kept hkept).kept hflushed
  | error interrupt after =>
      rw [hend] at hkept
      exact hlearned.kept hkept

/-- Between two programs the machine is informed of all programs so far. -/
theorem Fed.informed {clock : Nat → Float} {sink : Sink} {programs : List (List Stmt)}
    (h : Fed clock sink machine nextId programs) :
    Informed (programsSites programs) nextId machine := by
  induction h with
  | start => exact informed_start clock sink
  | @feed machine nextId last programs source program distances fuel _ haccepted ih =>
      rw [programsSites, List.flatMap_append, List.flatMap_singleton]
      exact ih.interpret haccepted.checked fuel

end Lox.Run
