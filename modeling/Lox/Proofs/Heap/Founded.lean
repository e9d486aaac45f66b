import Lox.Proofs.Heap.Reach

/-!
# Well-founded heaps

Every environment but the globals is inside one that was made before it, and every class extends
only one that was made before it. So every walk outwards comes to the globals, every walk upwards
comes to a class that extends none, and the bounds of both are never met.
-/

namespace Lox.Heap

variable {heap : Heap}

/-! ## Links that lead down -/

section

variable {next : Nat → Option Nat} {id steps : Nat}

/-- The places to which links lead from one on, at most so many steps away. -/
def trail (next : Nat → Option Nat) : (steps : Nat) → Nat → List Nat
  | 0, id => [id]
  | steps + 1, id =>
      match next id with
      | some outer => id :: trail next steps outer
      | none => [id]

/-- Every link leads to a lower place. -/
def Descends (next : Nat → Option Nat) : Prop :=
  ∀ id outer, next id = some outer → outer < id

namespace Descends

theorem wellFounded (h : Descends next) : WellFounded fun outer id => next id = some outer :=
  Subrelation.wf (h _ _) Nat.lt_wfRel.wf

/-- There are no more steps than places below. -/
theorem trail_of_le (h : Descends next) {more : Nat} (hid : id ≤ steps) (hle : steps ≤ more) :
    trail next more id = trail next steps id := by
  induction steps generalizing id more with
  | zero =>
      have hnone : next id = none := Option.eq_none_iff_forall_ne_some.mpr fun outer houter => by
        have hlower := h id outer houter
        omega
      cases more <;> simp [trail, hnone]
  | succ steps ih =>
      obtain ⟨more, rfl⟩ : ∃ m, more = m + 1 := ⟨more - 1, by omega⟩
      cases hnext : next id with
      | none => simp only [trail, hnext]
      | some outer =>
          have hlower := h id outer hnext
          simp only [trail, hnext]
          rw [ih (by omega) (by omega)]

/-- Enough steps for every place that has a link make no difference to a walk. -/
theorem trail_eq (h : Descends next) (hlinked : ∀ id outer, next id = some outer → id < steps)
    (id : Nat) : trail next steps id = id :: (next id).elim [] (trail next steps) := by
  cases hnext : next id with
  | none => cases steps <;> simp [trail, hnext]
  | some outer =>
      have hlower := h id outer hnext
      have hbelow := hlinked id outer hnext
      obtain ⟨less, rfl⟩ : ∃ m, steps = m + 1 := ⟨steps - 1, by omega⟩
      rw [Option.elim_some, h.trail_of_le (by omega : outer ≤ less) (Nat.le_succ less)]
      simp only [trail, hnext]

theorem le_of_mem_trail (h : Descends next) {place : Nat} (hmem : place ∈ trail next steps id) :
    place ≤ id := by
  induction steps generalizing id with
  | zero => exact Nat.le_of_eq (List.mem_singleton.mp hmem)
  | succ steps ih =>
      cases hnext : next id with
      | none =>
          simp only [trail, hnext] at hmem
          exact Nat.le_of_eq (List.mem_singleton.mp hmem)
      | some outer =>
          simp only [trail, hnext] at hmem
          obtain rfl | hmem := List.mem_cons.mp hmem
          · exact Nat.le_refl place
          · exact Nat.le_of_lt (Nat.lt_of_le_of_lt (ih hmem) (h id outer hnext))

theorem trail_pairwise (h : Descends next) (steps id : Nat) :
    (trail next steps id).Pairwise (· > ·) := by
  induction steps generalizing id with
  | zero => exact List.pairwise_singleton _ _
  | succ steps ih =>
      cases hnext : next id with
      | none =>
          simp only [trail, hnext]
          exact List.pairwise_singleton _ _
      | some outer =>
          simp only [trail, hnext]
          refine List.pairwise_cons.mpr ⟨fun place hmem => ?_, ih outer⟩
          exact Nat.lt_of_le_of_lt (h.le_of_mem_trail hmem) (h id outer hnext)

/-- A walk ends where there is no link. -/
theorem getLast?_trail (h : Descends next) (hid : id ≤ steps) :
    ∃ last, (trail next steps id).getLast? = some last ∧ next last = none := by
  induction steps generalizing id with
  | zero =>
      refine ⟨id, rfl, Option.eq_none_iff_forall_ne_some.mpr fun outer houter => ?_⟩
      have hlower := h id outer houter
      omega
  | succ steps ih =>
      cases hnext : next id with
      | none => exact ⟨id, by simp [trail, hnext], hnext⟩
      | some outer =>
          have hlower := h id outer hnext
          obtain ⟨last, hlast, hnone⟩ := ih (by omega : outer ≤ steps)
          refine ⟨last, ?_, hnone⟩
          simp only [trail, hnext]
          rw [List.getLast?_cons, hlast]
          rfl

end Descends

end

/-- The environment around an environment. -/
def outer? (heap : Heap) (id : EnvironmentId) : Option EnvironmentId :=
  (heap.environment id).enclosing

/-- The class that a class extends. -/
def parent? (heap : Heap) (id : ClassId) : Option ClassId :=
  (heap.class_ id).superclass

theorem chainFrom_eq_trail (heap : Heap) (fuel : Nat) (id : EnvironmentId) :
    heap.chainFrom fuel id = trail heap.outer? fuel id := by
  induction fuel generalizing id with
  | zero => rfl
  | succ fuel ih =>
      simp only [chainFrom, trail, outer?, ih]
      cases (heap.environment id).enclosing <;> rfl

theorem lineageFrom_eq_trail (heap : Heap) (fuel : Nat) (id : ClassId) :
    heap.lineageFrom fuel id = trail heap.parent? fuel id := by
  induction fuel generalizing id with
  | zero => rfl
  | succ fuel ih =>
      simp only [lineageFrom, trail, parent?, ih]
      cases (heap.class_ id).superclass <;> rfl

/-- The nearest method of a name: the one of the class itself, or else the nearest one of the class
that it extends. -/
inductive Nearest (heap : Heap) : ClassId → String → Closure → Prop where
  | own {id : ClassId} {name : String} {method : Closure} :
      (heap.class_ id).methods.get? name = some method → Nearest heap id name method
  | inherited {id parent : ClassId} {name : String} {method : Closure} :
      (heap.class_ id).methods.get? name = none → heap.parent? id = some parent →
        Nearest heap parent name method → Nearest heap id name method

/-- A class that extends another one is on the heap. -/
theorem lt_size_of_superclass {id parent : ClassId} (h : heap.parent? id = some parent) :
    id < heap.classes.size := by
  apply Nat.lt_of_not_le
  intro hle
  rw [parent?, class_, Array.getElem?_eq_none hle] at h
  cases h

/-! ## Chains whose links descend -/

/-- A chain goes on with the chain of the environment around. -/
theorem chain_of_descends (h : Descends heap.outer?) (id : EnvironmentId) :
    heap.chain id = id :: (heap.outer? id).elim [] heap.chain := by
  have hsame : heap.chain = trail heap.outer? heap.environments.size :=
    funext fun id => heap.chainFrom_eq_trail _ id
  rw [hsame]
  exact h.trail_eq (fun _ _ houter => lt_size_of_enclosing houter) id

/-- A name is bound here, or else in the environment around. -/
theorem binder?_of_descends (h : Descends heap.outer?) (id : EnvironmentId) (name : String) :
    heap.binder? id name =
      if (heap.binding? id name).isSome then some id
      else (heap.outer? id).bind (heap.binder? · name) := by
  rw [binder?, chain_of_descends h, List.find?_cons]
  cases (heap.binding? id name).isSome with
  | true => rfl
  | false => cases heap.outer? id <;> rfl

/-! ## Founded heaps -/

/-- The globals are outermost, every other environment is inside one that was made before it, every
class extends only one that was made before it, and functions and methods have their environments. -/
structure Founded (heap : Heap) : Prop where
  globals_lt : globals < heap.environments.size
  outermost : heap.outer? globals = none
  enclosed : ∀ id < heap.environments.size, id ≠ globals →
    ∃ outer < id, heap.outer? id = some outer
  superclass : ∀ id parent, heap.parent? id = some parent → parent < id
  closure : ∀ id < heap.functions.size, (heap.closure id).environment < heap.environments.size
  method : ∀ id name method, (heap.class_ id).methods.get? name = some method →
    method.environment < heap.environments.size

namespace Founded

variable {id : EnvironmentId}

theorem outer_descends (h : heap.Founded) : Descends heap.outer? := by
  intro id outer houter
  have hne : id ≠ globals := by
    rintro rfl
    rw [h.outermost] at houter
    cases houter
  obtain ⟨outer', hlower, houter'⟩ := h.enclosed id (lt_size_of_enclosing houter) hne
  rw [houter] at houter'
  cases houter'
  exact hlower

/-- Only the globals are outermost. -/
theorem eq_globals (h : heap.Founded) (hid : id < heap.environments.size)
    (hnone : heap.outer? id = none) : id = globals := by
  apply Classical.byContradiction
  intro hne
  obtain ⟨outer, -, houter⟩ := h.enclosed id hid hne
  rw [hnone] at houter
  cases houter

/-! ### Environments -/

/-- A chain goes on with the chain of the environment around. -/
theorem chain_eq (h : heap.Founded) (id : EnvironmentId) :
    heap.chain id = id :: (heap.outer? id).elim [] heap.chain :=
  chain_of_descends h.outer_descends id

/-- No environment is twice on a chain, which leads to earlier and earlier ones. -/
theorem chain_pairwise (h : heap.Founded) (id : EnvironmentId) :
    (heap.chain id).Pairwise (· > ·) := by
  rw [chain, chainFrom_eq_trail]
  exact h.outer_descends.trail_pairwise _ id

/-- The globals are at the end of every chain. -/
theorem getLast?_chain (h : heap.Founded) (hid : id < heap.environments.size) :
    (heap.chain id).getLast? = some globals := by
  rw [chain, chainFrom_eq_trail]
  obtain ⟨last, hlast, hnone⟩ := h.outer_descends.getLast?_trail (Nat.le_of_lt hid)
  have hle : last ≤ id := h.outer_descends.le_of_mem_trail (List.mem_of_getLast? hlast)
  rw [hlast, h.eq_globals (Nat.lt_of_le_of_lt hle hid) hnone]

theorem binder?_eq (h : heap.Founded) (id : EnvironmentId) (name : String) :
    heap.binder? id name =
      if (heap.binding? id name).isSome then some id
      else (heap.outer? id).bind (heap.binder? · name) :=
  binder?_of_descends h.outer_descends id name

/-- A name is read here, or else in the environment around. -/
theorem get_eq (h : heap.Founded) (id : EnvironmentId) (name : Token) :
    heap.get id name =
      match heap.binding? id name.lexeme, heap.outer? id with
      | some value, _ => .ok value
      | none, some outer => heap.get outer name
      | none, none => .error (undefined name) := by
  rw [get, get?, h.binder?_eq]
  cases hvalue : heap.binding? id name.lexeme with
  | some value => simp [hvalue]
  | none => cases houter : heap.outer? id <;> simp [get, get?]

/-- A name is assigned here, or else in the environment around. -/
theorem assign_eq (h : heap.Founded) (id : EnvironmentId) (name : Token) (value : Value) :
    heap.assign id name value =
      match heap.binding? id name.lexeme, heap.outer? id with
      | some _, _ => .ok (heap.define id name.lexeme value)
      | none, some outer => heap.assign outer name value
      | none, none => .error (undefined name) := by
  rw [assign, h.binder?_eq]
  cases hvalue : heap.binding? id name.lexeme with
  | some value => simp
  | none => cases houter : heap.outer? id <;> simp [assign]

/-- So many steps outwards are so many places along the chain, and no step leaves the globals. -/
theorem ancestor_eq (h : heap.Founded) (hid : id < heap.environments.size) (distance : Nat) :
    heap.ancestor id distance = (heap.chain id)[distance]?.getD globals := by
  induction distance generalizing id with
  | zero => rw [h.chain_eq]; rfl
  | succ distance ih =>
      rw [h.chain_eq, ancestor]
      cases houter : heap.outer? id with
      | some outer =>
          have houter' : (heap.environment id).enclosing = some outer := houter
          simp only [houter', Option.elim_some, List.getElem?_cons_succ]
          exact ih (Nat.lt_trans (h.outer_descends id outer houter) hid)
      | none =>
          have hnone : (heap.environment id).enclosing = none := houter
          simp only [hnone, Option.elim_none, List.getElem?_cons_succ, List.getElem?_nil,
            Option.getD_none]
          exact h.eq_globals hid houter

/-! ### Classes -/

theorem lineage_eq (h : heap.Founded) (id : ClassId) :
    heap.lineage id = id :: (heap.parent? id).elim [] heap.lineage := by
  have hsame : heap.lineage = trail heap.parent? heap.classes.size :=
    funext fun id => heap.lineageFrom_eq_trail _ id
  rw [hsame]
  exact Descends.trail_eq h.superclass (fun _ _ hparent => lt_size_of_superclass hparent) id

/-- A method is found in the class itself, or else in the class that it extends. -/
theorem findMethod?_eq (h : heap.Founded) (id : ClassId) (name : String) :
    heap.findMethod? id name =
      ((heap.class_ id).methods.get? name).or
        ((heap.parent? id).bind (heap.findMethod? · name)) := by
  rw [findMethod?, h.lineage_eq, List.findSome?_cons]
  cases (heap.class_ id).methods.get? name with
  | some method => rfl
  | none => cases heap.parent? id <;> rfl

/-- So the method that is found is the nearest one. -/
theorem findMethod?_iff_nearest (h : heap.Founded) {id : ClassId} {name : String}
    {method : Closure} : heap.findMethod? id name = some method ↔ heap.Nearest id name method := by
  refine ⟨fun hfound => ?_, fun hnearest => ?_⟩
  · induction id using (Descends.wellFounded h.superclass).induction with
    | _ id ih =>
        rw [h.findMethod?_eq] at hfound
        cases hown : (heap.class_ id).methods.get? name with
        | some own =>
            rw [hown] at hfound
            cases hfound
            exact .own hown
        | none =>
            rw [hown, Option.none_or] at hfound
            obtain ⟨parent, hparent, hfound⟩ := Option.bind_eq_some_iff.mp hfound
            exact .inherited hown hparent (ih parent hparent hfound)
  · induction hnearest with
    | own hown => rw [h.findMethod?_eq, hown, Option.some_or]
    | inherited hnone hparent _ ih =>
        rw [h.findMethod?_eq, hnone, Option.none_or, hparent, Option.bind_some, ih]

end Founded

end Lox.Heap

/-! ## Heaps of programs -/

namespace Lox.Outset

variable {heap : Heap} {location : Location}

/-- Someone who begins on an empty heap, with references to nothing. -/
def nothing : Outset :=
  ⟨⟨#[], #[], #[], #[]⟩, fun _ => False⟩

theorem vacant_nothing (location : Location) : nothing.heap.Vacant location := by
  cases location <;> exact Nat.zero_le _

/-- Whoever begins with nothing holds all that is on the heap. -/
theorem holds_nothing : nothing.Holds heap location ↔ ¬heap.Vacant location :=
  ⟨fun h => h.elim False.elim And.right, fun h => .inr ⟨vacant_nothing location, h⟩⟩

theorem fresh_confines : nothing.Confines Heap.fresh where
  globals := holds_nothing.mpr (Nat.not_le_of_lt Nat.zero_lt_one)
  vacant _ := vacant_nothing _
  closed hsource href := by
    rw [holds_nothing] at hsource ⊢
    cases href with
    | @binding id name value _ hread hlocation =>
        obtain ⟨-, rfl⟩ | hread := Heap.binding?_define_cases hread
        · cases hlocation
        · obtain rfl : id = 0 := Nat.lt_one_iff.mp (Nat.lt_of_not_le hsource)
          cases hread
    | @enclosing id outer houter =>
        obtain rfl : id = 0 := Nat.lt_one_iff.mp (Nat.lt_of_not_le hsource)
        cases houter
    | closure id => exact absurd (Nat.zero_le _) hsource
    | method hmethod => cases hmethod
    | superclass hparent => cases hparent
    | field hread hlocation => exact absurd (Nat.zero_le _) hsource
    | class_ id => exact absurd (Nat.zero_le _) hsource

theorem fresh_ordered : nothing.Ordered Heap.fresh where
  enclosing id hid hne := absurd (Nat.lt_one_iff.mp hid) hne
  superclass hparent := by cases hparent

/-- A heap without dangling references whose links lead to what was made before is founded. -/
theorem Confines.founded (h : nothing.Confines heap) (hordered : nothing.Ordered heap)
    (hgrows : Heap.fresh.Grows heap) : heap.Founded where
  globals_lt := Nat.lt_of_not_le (holds_nothing.mp h.globals)
  outermost := hgrows.enclosing Heap.globals (by decide)
  enclosed id hid hne := by
    obtain ⟨outer, houter, hlower⟩ := hordered.enclosing id hid hne
    exact ⟨outer, hlower.resolve_right fun hknown => hknown, houter⟩
  superclass id parent hparent := (hordered.superclass hparent).resolve_right fun hknown => hknown
  closure id hid := by
    have hheld : nothing.Holds heap (.function id) := holds_nothing.mpr (Nat.not_le_of_lt hid)
    exact Nat.lt_of_not_le (holds_nothing.mp (h.closed hheld (.closure id)))
  method id name method hmethod := by
    have hid : id < heap.classes.size := by
      apply Nat.lt_of_not_le
      intro hle
      rw [Heap.class_, Array.getElem?_eq_none hle] at hmethod
      cases hmethod
    have hheld : nothing.Holds heap (.class_ id) := holds_nothing.mpr (Nat.not_le_of_lt hid)
    exact Nat.lt_of_not_le (holds_nothing.mp (h.closed hheld (.method hmethod)))

end Lox.Outset
