import Lox.Proofs.Run.History
import Lox.Proofs.Run.Sources

/-!
# Programs without loops end

A task asks for smaller tasks only, but for a loop, which asks for itself, and a call, which asks for
the body of its callee. Calls go only so deep, and all bodies that a program without loops can call
are below one bound. So it ends, however its functions call one another.
-/

namespace Lox

/-! ## Trees without loops -/

mutual

/-- Whether there is no loop in a statement. -/
def Stmt.loopFree : Stmt → Bool
  | .expression _ | .print _ | .var _ _ | .return_ _ _ => true
  | .block body => Stmt.loopFreeAll body
  | .function declaration => declaration.loopFree
  | .class_ _ _ methods => FunctionDecl.loopFreeAll methods
  | .ifThen _ thenBranch => thenBranch.loopFree
  | .ifElse _ thenBranch elseBranch => thenBranch.loopFree && elseBranch.loopFree
  | .while_ _ _ => false

/-- Whether there is no loop in some statements. -/
def Stmt.loopFreeAll : List Stmt → Bool
  | [] => true
  | s :: rest => s.loopFree && Stmt.loopFreeAll rest

/-- Whether there is no loop in a function. -/
def FunctionDecl.loopFree : FunctionDecl → Bool
  | ⟨_, _, body⟩ => Stmt.loopFreeAll body

/-- Whether there is no loop in some methods. -/
def FunctionDecl.loopFreeAll : List FunctionDecl → Bool
  | [] => true
  | d :: rest => d.loopFree && FunctionDecl.loopFreeAll rest

end

theorem FunctionDecl.loopFree_of_mem {methods : List FunctionDecl} {method : FunctionDecl}
    (h : FunctionDecl.loopFreeAll methods) (hmem : method ∈ methods) : method.loopFree := by
  induction methods with
  | nil => cases hmem
  | cons first rest ih =>
      rw [FunctionDecl.loopFreeAll, Bool.and_eq_true] at h
      rcases List.mem_cons.mp hmem with rfl | hmem
      · exact h.1
      · exact ih h.2 hmem

/-- All functions and methods on the heap are without loops. -/
structure Heap.LoopFree (heap : Heap) : Prop where
  functions : ∀ closure ∈ heap.functions, closure.declaration.loopFree
  methods : ∀ entry ∈ heap.classes, ∀ name method, entry.methods.get? name = some method →
    method.declaration.loopFree

/-! ## Sizes -/

theorem Table.sizeOf_get? {α : Type} [SizeOf α] {table : Table α} {name : String} {value : α}
    (h : table.get? name = some value) : sizeOf value < sizeOf table := by
  obtain ⟨entries⟩ := table
  rw [Table.get?] at h
  change Table.find name entries = some value at h
  have hentries : sizeOf value < sizeOf entries := by
    induction entries with
    | nil => cases h
    | cons entry rest ih =>
        obtain ⟨key, first⟩ := entry
        rw [Table.find] at h
        split at h
        · cases h
          simp only [List.cons.sizeOf_spec, Prod.mk.sizeOf_spec]
          omega
        · have := ih h
          simp only [List.cons.sizeOf_spec]
          omega
  simp only [Table.mk.sizeOf_spec]
  omega

namespace Heap

variable {heap : Heap}

/-- A function on the heap is there or is the default one. -/
theorem closure_mem (heap : Heap) (id : FunctionId) :
    heap.closure id ∈ heap.functions ∨ heap.closure id = default := by
  rw [Heap.closure]
  cases h : heap.functions[id]? with
  | some closure => exact .inl (Array.mem_of_getElem? h)
  | none => exact .inr rfl

theorem class_mem (heap : Heap) (id : ClassId) :
    heap.class_ id ∈ heap.classes ∨ heap.class_ id = default := by
  rw [Heap.class_]
  cases h : heap.classes[id]? with
  | some entry => exact .inl (Array.mem_of_getElem? h)
  | none => exact .inr rfl

theorem sizeOf_function {closure : Closure} (h : closure ∈ heap.functions) :
    sizeOf closure.declaration < sizeOf heap := by
  have hclosure := Array.sizeOf_lt_of_mem h
  obtain ⟨declaration, environment, isInitializer⟩ := closure
  obtain ⟨environments, functions, classes, instances⟩ := heap
  simp only [Closure.mk.sizeOf_spec, Heap.mk.sizeOf_spec] at hclosure ⊢
  omega

theorem sizeOf_method {entry : Class} (h : entry ∈ heap.classes) {name : String} {method : Closure}
    (hmethod : entry.methods.get? name = some method) :
    sizeOf method.declaration < sizeOf heap := by
  have hentry := Array.sizeOf_lt_of_mem h
  have hclosure := Table.sizeOf_get? hmethod
  obtain ⟨className, superclass, methods⟩ := entry
  obtain ⟨declaration, environment, isInitializer⟩ := method
  obtain ⟨environments, functions, classes, instances⟩ := heap
  simp only [Closure.mk.sizeOf_spec, Class.mk.sizeOf_spec, Heap.mk.sizeOf_spec] at hentry hclosure ⊢
  omega

end Heap

namespace Run

open Scope (Distances)

/-! ## Small code -/

/-- Whether there is no loop in a task. -/
def Task.loopFree : Task → Bool
  | evaluate _ | evaluateAll _ => true
  | execute s => s.loopFree
  | executeAll statements => Stmt.loopFreeAll statements

/-- What an expression asks for is smaller, but for the body of a callee. -/
theorem expressionParts_smaller {e : Expr} {inner : Task} (hpart : inner ∈ expressionParts e) :
    inner.loopFree ∧ sizeOf inner < 1 + sizeOf e := by
  cases e <;>
    simp only [expressionParts, List.mem_cons, List.not_mem_nil, or_false] at hpart <;>
    rcases hpart with rfl | rfl <;> simp [Task.loopFree] <;> omega

/-- The expression of a statement, if there is one, is smaller. -/
theorem optionalPart_smaller {value : Option Expr} {inner : Task}
    (hpart : inner ∈ value.toList.map Task.evaluate) :
    inner.loopFree ∧ sizeOf inner ≤ sizeOf value := by
  cases value with
  | none => simp at hpart
  | some e =>
      obtain rfl : inner = .evaluate e := by simpa using hpart
      exact ⟨rfl, by simp⟩

/-- What a statement without loops asks for is smaller. -/
theorem statementParts_smaller {s : Stmt} {inner : Task} (h : s.loopFree)
    (hpart : inner ∈ statementParts s) : inner.loopFree ∧ sizeOf inner < 1 + sizeOf s := by
  cases s with
  | expression value | print value =>
      obtain rfl : inner = .evaluate value := by simpa [statementParts] using hpart
      exact ⟨rfl, by simp⟩
  | var name value | return_ name value =>
      obtain ⟨hfree, hsize⟩ := optionalPart_smaller hpart
      refine ⟨hfree, ?_⟩
      simp
      omega
  | class_ name superclass methods =>
      obtain ⟨hfree, hsize⟩ := optionalPart_smaller hpart
      refine ⟨hfree, ?_⟩
      simp
      omega
  | block body =>
      obtain rfl : inner = .executeAll body := by simpa [statementParts] using hpart
      exact ⟨h, by simp⟩
  | function declaration => simp [statementParts] at hpart
  | ifThen condition thenBranch =>
      simp only [statementParts, List.mem_cons, List.not_mem_nil, or_false] at hpart
      rcases hpart with rfl | rfl
      · exact ⟨rfl, by simp +arith⟩
      · exact ⟨h, by simp +arith⟩
  | ifElse condition thenBranch elseBranch =>
      simp only [statementParts, List.mem_cons, List.not_mem_nil, or_false] at hpart
      rw [Stmt.loopFree, Bool.and_eq_true] at h
      rcases hpart with rfl | rfl | rfl
      · exact ⟨rfl, by simp +arith⟩
      · exact ⟨h.1, by simp +arith⟩
      · exact ⟨h.2, by simp +arith⟩
  | while_ condition body => cases h

/-- What a task without loops asks for is without loops as well, and smaller. -/
theorem Task.part_smaller {task inner : Task} (h : task.loopFree) (hpart : inner ∈ task.parts) :
    inner.loopFree ∧ sizeOf inner < sizeOf task := by
  cases task with
  | evaluate e => simpa using expressionParts_smaller hpart
  | execute s => simpa using statementParts_smaller h hpart
  | evaluateAll es =>
      cases es with
      | nil => simp [Task.parts] at hpart
      | cons e rest =>
          simp only [Task.parts, List.mem_cons, List.not_mem_nil, or_false] at hpart
          rcases hpart with rfl | rfl
          · exact ⟨rfl, by simp +arith⟩
          · exact ⟨rfl, by simp +arith⟩
  | executeAll statements =>
      cases statements with
      | nil => simp [Task.parts] at hpart
      | cons s rest =>
          simp only [Task.parts, List.mem_cons, List.not_mem_nil, or_false] at hpart
          rw [Task.loopFree, Stmt.loopFreeAll, Bool.and_eq_true] at h
          rcases hpart with rfl | rfl
          · exact ⟨h.1, by simp +arith⟩
          · exact ⟨h.2, by simp +arith⟩

/-- What a task without loops declares is without loops, and smaller. -/
theorem Task.declaration_smaller {task : Task} {made : FunctionDecl} (h : task.loopFree)
    (hmade : made ∈ task.declarations) : made.loopFree ∧ sizeOf made < sizeOf task := by
  cases task with
  | execute s =>
      cases s with
      | function declaration =>
          obtain rfl : made = declaration := by simpa [Task.declarations] using hmade
          exact ⟨h, by simp +arith⟩
      | class_ name superclass methods =>
          have hsize := List.sizeOf_lt_of_mem (show made ∈ methods from hmade)
          refine ⟨FunctionDecl.loopFree_of_mem h hmade, ?_⟩
          simp
          omega
      | _ => simp [Task.declarations] at hmade
  | _ => simp [Task.declarations] at hmade

/-- The code without loops whose functions are below a bound. -/
def Code.small (bound : Nat) (hbound : sizeOf (default : FunctionDecl) ≤ bound) : Code where
  task task := task.loopFree ∧ sizeOf task ≤ bound
  name _ := True
  declaration made := made.loopFree ∧ sizeOf made ≤ bound
  part h hpart :=
    let ⟨hfree, hsize⟩ := Task.part_smaller h.1 hpart
    ⟨hfree, Nat.le_trans (Nat.le_of_lt hsize) h.2⟩
  names _ _ _ := True.intro
  declarations h made hmade :=
    let ⟨hfree, hsize⟩ := Task.declaration_smaller h.1 hmade
    ⟨hfree, Nat.le_trans (Nat.le_of_lt hsize) h.2⟩
  body {made} h := by
    obtain ⟨name, parameters, body⟩ := made
    refine ⟨h.1, Nat.le_trans ?_ h.2⟩
    simp
    omega
  parameters _ _ _ := True.intro
  empty := ⟨rfl, hbound⟩

/-! ## Enough fuel -/

/-- The fuel that a task without loops needs, if all functions are below a bound: for each call for
which there is room the bound, and the size of the task. -/
noncomputable def Task.need (bound : Nat) (task : Task) (machine : Machine) : Nat :=
  (maxCallDepth - machine.callDepth) * (bound + 1) + sizeOf task

section

variable {bound : Nat} {hbound : sizeOf (default : FunctionDecl) ≤ bound} {task inner : Task}
  {machine start : Machine}

/-- What a task without loops asks for needs less. -/
theorem Permits.need_lt (h : Permits (.small bound hbound) task machine inner start)
    (hfree : task.loopFree) : inner.need bound start < task.need bound machine := by
  have hsize : sizeOf inner ≤ bound := h.code.2
  have hpositive : 0 < sizeOf task := by cases task <;> simp +arith
  rw [Task.need, Task.need]
  obtain ⟨hpart, hdepth⟩ | ⟨-, hbelow, hdepth⟩ := h.depth
  · have hsmaller := (Task.part_smaller hfree hpart).2
    rw [hdepth]
    omega
  · have hroom : maxCallDepth - machine.callDepth = maxCallDepth - start.callDepth + 1 := by omega
    rw [hroom, Nat.succ_mul]
    omega

/-- The need falls with the fuel. -/
theorem Comes.need_le {fuel rest : Nat} {last : Task} {moment : Machine}
    (h : Comes fuel task machine rest last moment)
    (hbegins : (History.all (.small bound hbound)).Begins fuel task machine) :
    last.need bound moment + fuel ≤ task.need bound machine + rest := by
  induction h with
  | here => exact Nat.le_refl _
  | inside hasks _ ih =>
      obtain ⟨hpermits, hheap, -⟩ := hbegins.asked hasks
      have hless := Permits.need_lt (show Permits (.small bound hbound) _ _ _ _ from hpermits)
        hbegins.code.1
      have hrest := ih (hbegins.inside hasks hpermits hheap)
      omega

/-- With as much fuel as it needs, a task without loops ends. -/
theorem run_ends {fuel : Nat}
    (hbegins : (History.all (.small bound hbound)).Begins fuel task machine)
    (hfuel : task.need bound machine ≤ fuel) (last : Machine) :
    Task.run fuel task machine ≠ .error .outOfFuel last := by
  intro hend
  obtain ⟨rest, inner, moment, _, hcomes, -, hrest⟩ := hbegins.interrupted hend
  have hneed := hcomes.need_le hbegins
  have hpositive : 0 < inner.need bound moment := by
    rw [Task.need]
    cases inner <;> simp +arith
  rw [show rest = 0 from hrest] at hneed
  omega

end

/-! ## Programs without loops -/

/-- The functions of a heap without loops are below any bound that is above the heap. -/
theorem sound_small {heap : Heap} (h : heap.LoopFree) {bound : Nat}
    (hbound : sizeOf (default : FunctionDecl) ≤ bound) (hheap : sizeOf heap ≤ bound) :
    heap.Sound (History.all (.small bound hbound)).rules := by
  refine ⟨fun id => ?_, fun id name method hmethod => ?_⟩
  · obtain hmem | hdefault := heap.closure_mem id
    · have hsize := Heap.sizeOf_function hmem
      exact ⟨h.functions _ hmem, by omega⟩
    · rw [hdefault]
      exact ⟨rfl, hbound⟩
  · obtain hmem | hdefault := heap.class_mem id
    · have hsize := Heap.sizeOf_method hmem hmethod
      exact ⟨h.methods _ hmem name method hmethod, by omega⟩
    · rw [hdefault] at hmethod
      cases hmethod

/-- A program without loops ends on every machine whose functions are without loops, with success or
with an error, whatever distances its names have and whatever the sink refuses. From some fuel on
it always ends alike. -/
theorem loopFree_program_ends (program : List Stmt) (hprogram : Stmt.loopFreeAll program)
    (machine : Machine) (hheap : machine.heap.LoopFree) (distances : Distances) :
    ∃ outcome, (∀ last, outcome ≠ .error .outOfFuel last) ∧
      ∃ enough, ∀ fuel ≥ enough, interpret fuel program distances machine = outcome := by
  let task := Task.executeAll program
  let bound := sizeOf (default : FunctionDecl) + sizeOf machine.heap + sizeOf task
  have hbound : sizeOf (default : FunctionDecl) ≤ bound := by omega
  let learned := machine.learn distances
  let enough := task.need bound learned
  have hsound := sound_small hheap hbound (show sizeOf machine.heap ≤ bound by omega)
  have hbegins : ∀ fuel, (History.all (.small bound hbound)).Begins fuel task learned :=
    fun fuel => ⟨True.intro, ⟨hprogram, show sizeOf task ≤ bound by omega⟩, hsound⟩
  have hends := run_ends (hbegins enough) (Nat.le_refl _)
  refine ⟨interpret enough program distances machine, ?_, enough, fun fuel hfuel => ?_⟩
  · intro last hlast
    rw [interpret_eq] at hlast
    cases hrun : Task.run enough task learned with
    | ok flow after =>
        simp only [task, learned] at hrun
        rw [hrun] at hlast
        simp only [flush, settle] at hlast
        split at hlast <;> cases hlast
    | error interrupt after =>
        have hsame := hrun
        simp only [task, learned] at hrun
        rw [hrun] at hlast
        cases hlast
        exact hends _ hsame
  · rw [interpret_eq, interpret_eq, run_of_le hfuel hends]

/-- A function that calls itself without end, and a call of it. -/
def endless : List Stmt :=
  let call : Expr := .call 1 (.var 0 ⟨.identifier, "f", 1⟩) ⟨.symbol .rightParen, ")", 1⟩ []
  [.function ⟨⟨.identifier, "f", 1⟩, [], [.expression call]⟩, .expression call]

theorem loopFree_program_ends_endless :
    Stmt.loopFreeAll endless ∧ (Machine.start (fun _ => 0) .unlimited).heap.LoopFree ∧
      ∃ outcome, (∀ last, outcome ≠ .error .outOfFuel last) ∧
        ∃ enough, ∀ fuel ≥ enough,
          interpret fuel endless ∅ (.start (fun _ => 0) .unlimited) = outcome := by
  have hprogram : Stmt.loopFreeAll endless := by rfl
  have hheap : (Machine.start (fun _ => 0) .unlimited).heap.LoopFree :=
    ⟨fun _ hmem => by simp [Machine.start, Heap.fresh, Heap.root] at hmem,
      fun _ hmem => by simp [Machine.start, Heap.fresh, Heap.root] at hmem⟩
  exact ⟨hprogram, hheap, loopFree_program_ends endless hprogram _ hheap ∅⟩

end Run

end Lox
