import Lox.Proofs.Run.Inheritance
import Lox.Proofs.Run.Passage

/-!
# The heap of a machine is well-founded

Whatever programs a machine runs, with the distances of any resolution or without, its environments
lead to the globals and its classes to one that extends none. So looking up names and methods comes
to an end without a bound.
-/

namespace Lox.Run

variable {clock : Nat → Float} {sink : Sink} {state last : Machine}

/-- In every state through which a machine passes, the links between environments and between
classes lead to what was made before, and environments stay inside the same ones. Every environment
is on a chain that ends at the globals and comes to no environment twice. Reading and assigning
names, walking outwards and finding methods follow these links, and no bound stops them. -/
theorem heap_is_founded (h : Passes clock sink state last) :
    let heap := state.heap
    heap.Founded ∧
    state.environment < heap.environments.size ∧
    (∀ id < heap.environments.size, last.heap.outer? id = heap.outer? id) ∧
    (∀ id < heap.environments.size,
      (heap.chain id).getLast? = some Heap.globals ∧ (heap.chain id).Pairwise (· > ·)) ∧
    WellFounded (fun outer id => heap.outer? id = some outer) ∧
    WellFounded (fun parent id => heap.parent? id = some parent) ∧
    (∀ id, heap.chain id = id :: (heap.outer? id).elim [] heap.chain) ∧
    (∀ id name, heap.get id name =
      match heap.binding? id name.lexeme, heap.outer? id with
      | some value, _ => .ok value
      | none, some outer => heap.get outer name
      | none, none => .error (Heap.undefined name)) ∧
    (∀ id name value, heap.assign id name value =
      match heap.binding? id name.lexeme, heap.outer? id with
      | some _, _ => .ok (heap.define id name.lexeme value)
      | none, some outer => heap.assign outer name value
      | none, none => .error (Heap.undefined name)) ∧
    (∀ id < heap.environments.size, ∀ distance,
      heap.ancestor id distance = (heap.chain id)[distance]?.getD Heap.globals) ∧
    ∀ id name, heap.findMethod? id name =
      ((heap.class_ id).methods.get? name).or
        ((heap.parent? id).bind (heap.findMethod? · name)) := by
  intro heap
  have hfounded : heap.Founded := h.grounded.founded
  exact ⟨hfounded, h.grounded.environment_lt, h.changes.grows.enclosing,
    fun id hid => ⟨hfounded.getLast?_chain hid, hfounded.chain_pairwise id⟩,
    hfounded.outer_descends.wellFounded, Heap.Descends.wellFounded hfounded.superclass,
    hfounded.chain_eq, hfounded.get_eq, hfounded.assign_eq,
    fun id hid distance => hfounded.ancestor_eq hid distance, hfounded.findMethod?_eq⟩

/-- A method was read from an instance of a class that extends another one. -/
theorem heap_is_founded_derived :
    let state := Outcome.machine (Task.run 5 (.evaluate boundRead) superDeclared)
    Passes (fun _ => 0) .unlimited state state ∧ state.heap.chain 2 = [2, 1, 0] ∧
      state.heap.parent? 1 = some 0 ∧ (state.heap.closure 0).environment = 2 ∧
        state.heap.Founded := by
  intro state
  have hpasses : Passes (fun _ => 0) .unlimited state state :=
    .here (.run 5 _ (.run 8 _ (.run 9 _ (.learn _ .start))))
  exact ⟨hpasses, by rfl, by rfl, by rfl, (heap_is_founded hpasses).1⟩

end Lox.Run
