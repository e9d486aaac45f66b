import Lox.Proofs.Heap.Founded
import Lox.Run.Name

/-!
# Forests of environments

Environments are made one by one, each by itself or inside an earlier one, and names are bound and
assigned in them in any order. A lookup ends at the nearest environment that binds the name, which
is a slot that lookups from other environments may end at as well. A write sets one slot: whoever
ends there sees the new value, and nobody else sees a difference.
-/

namespace Lox.Heap

variable {heap later : Heap}

/-! ## Forests -/

/-- Appends an environment with nothing around it. -/
def outermost (heap : Heap) : EnvironmentId × Heap :=
  (heap.environments.size,
    { heap with environments := heap.environments.push ⟨.empty, none, none⟩ })

/-- The globals are made in this way. -/
example : (⟨#[], #[], #[], #[]⟩ : Heap).outermost = (globals, root) := rfl

/-- The heap came from one without environments, by operations on environments that it had. A failed
assignment makes no new heap. -/
inductive Forest : Heap → Prop where
  | bare {heap : Heap} : heap.environments = #[] → Forest heap
  | outermost {heap : Heap} : Forest heap → Forest heap.outermost.2
  | child {heap : Heap} {enclosing : EnvironmentId} (region : Option Region) :
      Forest heap → enclosing < heap.environments.size → Forest (heap.child enclosing region).2
  | define {heap : Heap} {id : EnvironmentId} (name : String) (value : Value) :
      Forest heap → id < heap.environments.size → Forest (heap.define id name value)
  | assign {heap later : Heap} {id : EnvironmentId} {name : Token} {value : Value} :
      Forest heap → id < heap.environments.size → heap.assign id name value = .ok later →
        Forest later
  | assignAt {heap : Heap} {id : EnvironmentId} (distance : Nat) (name : String) (value : Value) :
      Forest heap → id < heap.environments.size → Forest (heap.assignAt id distance name value)

theorem outer?_define (heap : Heap) (id : EnvironmentId) (name : String) (value : Value) :
    (heap.define id name value).outer? = heap.outer? :=
  funext fun place => enclosing_define heap id place name value

theorem outer?_outermost (heap : Heap) : heap.outermost.2.outer? = heap.outer? := by
  funext id
  by_cases hnew : id = heap.environments.size
  · subst hnew
    simp [outer?, outermost, environment]
    rfl
  · simp [outer?, outermost, environment, Array.getElem?_push, hnew]

theorem outer?_child (heap : Heap) (enclosing : EnvironmentId) (region : Option Region)
    (id : EnvironmentId) :
    (heap.child enclosing region).2.outer? id =
      if id = heap.environments.size then some enclosing else heap.outer? id := by
  rw [outer?, environment_child]
  split <;> rfl

/-- An assignment that succeeds is a definition where the name is bound. -/
theorem assign_eq_ok_iff {id : EnvironmentId} {name : Token} {value : Value} :
    heap.assign id name value = .ok later ↔
      ∃ place, heap.binder? id name.lexeme = some place ∧
        later = heap.define place name.lexeme value := by
  rw [assign]
  cases heap.binder? id name.lexeme <;> simp [eq_comm]

/-- Every environment of a forest is inside an earlier one, or inside none. -/
theorem Forest.descends (h : heap.Forest) : Descends heap.outer? := by
  induction h with
  | bare hnone =>
      intro id outer houter
      have hlt := lt_size_of_enclosing houter
      rw [hnone] at hlt
      exact absurd hlt (Nat.not_lt_zero id)
  | outermost _ ih => rwa [outer?_outermost]
  | @child heap enclosing region _ hlt ih =>
      intro id outer houter
      rw [outer?_child] at houter
      by_cases hnew : id = heap.environments.size
      · rw [if_pos hnew] at houter
        cases houter
        rwa [hnew]
      · rw [if_neg hnew] at houter
        exact ih id outer houter
  | define _ _ _ _ ih => rwa [outer?_define]
  | assign _ _ hassign ih =>
      obtain ⟨place, -, rfl⟩ := assign_eq_ok_iff.mp hassign
      rwa [outer?_define]
  | assignAt _ _ _ _ _ ih => rwa [Heap.assignAt, outer?_define]

/-! ## Ancestors -/

section

variable {id : EnvironmentId} {distance : Nat}

theorem ancestor_succ (heap : Heap) (id : EnvironmentId) (distance : Nat) :
    heap.ancestor id (distance + 1) =
      (heap.outer? id).elim id (heap.ancestor · distance) := by
  rw [ancestor, outer?]
  cases (heap.environment id).enclosing <;> rfl

/-- Whoever is outermost stays there. -/
theorem ancestor_of_outermost (h : heap.outer? id = none) (distance : Nat) :
    heap.ancestor id distance = id := by
  cases distance with
  | zero => rfl
  | succ distance => rw [ancestor_succ, h, Option.elim_none]

/-- Walking on goes on from where one is. -/
theorem ancestor_add (heap : Heap) (id : EnvironmentId) (near far : Nat) :
    heap.ancestor id (near + far) = heap.ancestor (heap.ancestor id near) far := by
  induction near generalizing id with
  | zero => rw [Nat.zero_add, ancestor]
  | succ near ih =>
      rw [Nat.add_right_comm, ancestor_succ, ancestor_succ]
      cases houter : heap.outer? id with
      | some outer => exact ih outer
      | none => exact (ancestor_of_outermost houter far).symm

theorem ancestor_congr (h : later.outer? = heap.outer?) (id : EnvironmentId) (distance : Nat) :
    later.ancestor id distance = heap.ancestor id distance := by
  induction distance generalizing id with
  | zero => rfl
  | succ distance ih =>
      rw [ancestor_succ, ancestor_succ, h]
      cases heap.outer? id with
      | some outer => exact ih outer
      | none => rfl

theorem ancestor_le (h : Descends heap.outer?) (id : EnvironmentId) (distance : Nat) :
    heap.ancestor id distance ≤ id := by
  induction distance generalizing id with
  | zero => exact Nat.le_refl id
  | succ distance ih =>
      rw [ancestor_succ]
      cases houter : heap.outer? id with
      | some outer => exact Nat.le_trans (ih outer) (Nat.le_of_lt (h id outer houter))
      | none => exact Nat.le_refl id

/-- A walk with enough steps comes to an outermost environment. -/
theorem outer?_ancestor (h : Descends heap.outer?) (hdistance : id ≤ distance) :
    heap.outer? (heap.ancestor id distance) = none := by
  induction distance generalizing id with
  | zero =>
      refine Option.eq_none_iff_forall_ne_some.mpr fun outer houter => ?_
      obtain rfl := Nat.le_zero.mp hdistance
      exact Nat.not_lt_zero outer (h 0 outer houter)
  | succ distance ih =>
      rw [ancestor_succ]
      cases houter : heap.outer? id with
      | some outer =>
          exact ih (Nat.le_of_lt_succ (Nat.lt_of_lt_of_le (h id outer houter) hdistance))
      | none => exact houter

end

/-! ## Where lookups end -/

/-- From an environment, a lookup of a name ends at the nearest environment that binds it. -/
inductive EndsAt (heap : Heap) (name : String) : EnvironmentId → EnvironmentId → Prop where
  | here {id : EnvironmentId} : (heap.binding? id name).isSome → EndsAt heap name id id
  | outside {id outer place : EnvironmentId} :
      heap.binding? id name = none → heap.outer? id = some outer → EndsAt heap name outer place →
        EndsAt heap name id place

namespace EndsAt

variable {name : String} {id place : EnvironmentId}

theorem bound (h : heap.EndsAt name id place) : (heap.binding? place name).isSome := by
  induction h with
  | here hbound => exact hbound
  | outside _ _ _ ih => exact ih

/-- The environment at which a lookup ends is some steps outwards, and no nearer one binds the
name. -/
theorem ancestor (h : heap.EndsAt name id place) :
    ∃ distance, heap.ancestor id distance = place ∧
      ∀ nearer < distance, heap.getAt? id nearer name = none := by
  induction h with
  | here _ => exact ⟨0, rfl, fun nearer hlt => absurd hlt (Nat.not_lt_zero nearer)⟩
  | @outside id outer place hnone houter _ ih =>
      obtain ⟨distance, hplace, hnearer⟩ := ih
      refine ⟨distance + 1, by rw [ancestor_succ, houter, Option.elim_some, hplace], ?_⟩
      intro nearer hlt
      cases nearer with
      | zero => exact hnone
      | succ nearer =>
          rw [getAt?, ancestor_succ, houter]
          exact hnearer nearer (Nat.lt_of_succ_lt_succ hlt)

end EndsAt

section

variable {name : String} {id place : EnvironmentId}

/-- The lookup is the one along the chain. -/
theorem binder?_eq_some_iff (h : Descends heap.outer?) :
    heap.binder? id name = some place ↔ heap.EndsAt name id place := by
  refine ⟨fun hbinder => ?_, fun hends => ?_⟩
  · induction id using h.wellFounded.induction with
    | _ id ih =>
        rw [binder?_of_descends h] at hbinder
        cases hbound : heap.binding? id name with
        | some value =>
            rw [hbound] at hbinder
            cases hbinder
            exact .here (by rw [hbound]; rfl)
        | none =>
            rw [hbound] at hbinder
            obtain ⟨outer, houter, hbinder⟩ := Option.bind_eq_some_iff.mp hbinder
            exact .outside hbound houter (ih outer houter hbinder)
  · induction hends with
    | here hbound => rw [binder?_of_descends h, if_pos hbound]
    | outside hnone houter _ ih =>
        rw [binder?_of_descends h, hnone, houter]
        exact ih

theorem get?_of_endsAt (h : Descends heap.outer?) (hends : heap.EndsAt name id place) :
    heap.get? id name = heap.binding? place name := by
  rw [get?, (binder?_eq_some_iff h).mpr hends, Option.bind_some]

theorem get_eq_error_iff {name : Token} {error : RuntimeError} :
    heap.get id name = .error error ↔
      heap.binder? id name.lexeme = none ∧ error = undefined name := by
  rw [get, get?]
  cases hbinder : heap.binder? id name.lexeme with
  | none => simp [eq_comm]
  | some place =>
      have hbound : (heap.binding? place name.lexeme).isSome := by
        rw [binder?] at hbinder
        simpa using List.find?_some hbinder
      obtain ⟨value, hvalue⟩ := Option.isSome_iff_exists.mp hbound
      simp [hvalue]

theorem assign_eq_error_iff {name : Token} {value : Value} {error : RuntimeError} :
    heap.assign id name value = .error error ↔
      heap.binder? id name.lexeme = none ∧ error = undefined name := by
  rw [assign]
  cases heap.binder? id name.lexeme <;> simp [eq_comm]

end

/-! ## Setting a slot -/

/-- One slot of the heap is set, and nothing else is different. -/
structure Sets (heap later : Heap) (place : EnvironmentId) (name : String) (value : Value) :
    Prop where
  written : later.binding? place name = some value
  kept : ∀ id other, ¬(id = place ∧ other = name) →
    later.binding? id other = heap.binding? id other
  size : later.environments.size = heap.environments.size
  outer : later.outer? = heap.outer?
  region : ∀ id, (later.environment id).region = (heap.environment id).region
  functions : later.functions = heap.functions
  classes : later.classes = heap.classes
  instances : later.instances = heap.instances

theorem sets_define {place : EnvironmentId} (hplace : place < heap.environments.size)
    (name : String) (value : Value) :
    heap.Sets (heap.define place name value) place name value where
  written := binding?_define_self hplace name value
  kept id other hne := by
    rw [binding?_define _ _ _ _ _ _ hplace, if_neg fun h => hne ⟨h.1.symm, h.2.symm⟩]
  size := size_define heap place name value
  outer := outer?_define heap place name value
  region id := region_define heap place id name value
  functions := rfl
  classes := rfl
  instances := rfl

namespace Sets

variable {place : EnvironmentId} {name : String} {value : Value}

/-- What a lookup that ends at another slot meets was there before. -/
theorem endsAt_before (h : heap.Sets later place name value) {id end_ : EnvironmentId}
    {other : String} (hends : later.EndsAt other id end_) (hne : ¬(end_ = place ∧ other = name)) :
    heap.EndsAt other id end_ := by
  induction hends with
  | here hbound => exact .here (by rwa [← h.kept _ _ hne])
  | @outside id outer end_ hnone houter _ ih =>
      have hkept : heap.binding? id other = none := by
        rw [← h.kept id other, hnone]
        rintro ⟨rfl, rfl⟩
        rw [h.written] at hnone
        cases hnone
      exact .outside hkept (by rwa [← h.outer]) (ih hne)

/-- Lookups that ended at the slot still do. -/
theorem endsAt_after (h : heap.Sets later place name value) {id : EnvironmentId}
    (hends : heap.EndsAt name id place) : later.EndsAt name id place := by
  have hset : later.EndsAt name place place := .here (by rw [h.written]; rfl)
  induction hends with
  | here _ => exact hset
  | @outside id outer place' hnone houter hrest ih =>
      by_cases hplace : id = place'
      · exact hplace ▸ hset
      · refine .outside ?_ (by rwa [h.outer]) (ih h hset)
        rw [h.kept id name fun hslot => hplace hslot.1, hnone]

/-- Names that were found are still found, maybe nearer. -/
theorem exists_endsAt (h : heap.Sets later place name value) {id end_ : EnvironmentId}
    {other : String} (hends : heap.EndsAt other id end_) : ∃ end_, later.EndsAt other id end_ := by
  induction hends with
  | @here id hbound =>
      by_cases hslot : id = place ∧ other = name
      · obtain ⟨rfl, rfl⟩ := hslot
        exact ⟨id, .here (by rw [h.written]; rfl)⟩
      · exact ⟨id, .here (by rwa [h.kept id other hslot])⟩
  | @outside id outer end_ _ houter _ ih =>
      obtain ⟨nearest, hrest⟩ := ih
      cases hbound : later.binding? id other with
      | some value => exact ⟨id, .here (by rw [hbound]; rfl)⟩
      | none => exact ⟨nearest, .outside hbound (by rwa [h.outer]) hrest⟩

/-- Where the slot was bound before, no lookup ends elsewhere than before. -/
theorem endsAt_iff (h : heap.Sets later place name value)
    (hbound : (heap.binding? place name).isSome) {id end_ : EnvironmentId} {other : String} :
    later.EndsAt other id end_ ↔ heap.EndsAt other id end_ := by
  have hsome : ∀ id, (later.binding? id other).isSome = (heap.binding? id other).isSome := by
    intro id
    by_cases hslot : id = place ∧ other = name
    · obtain ⟨rfl, rfl⟩ := hslot
      rw [h.written, hbound, Option.isSome_some]
    · rw [h.kept id other hslot]
  have hnone : ∀ id, later.binding? id other = none ↔ heap.binding? id other = none := by
    intro id
    rw [← Option.isNone_iff_eq_none, ← Option.isNone_iff_eq_none, ← Option.not_isSome,
      ← Option.not_isSome, hsome]
  refine ⟨fun hends => ?_, fun hends => ?_⟩
  · induction hends with
    | here hbound => exact .here (by rwa [← hsome])
    | outside hempty houter _ ih =>
        exact .outside ((hnone _).mp hempty) (by rwa [← h.outer]) ih
  · induction hends with
    | here hbound => exact .here (by rwa [hsome])
    | outside hempty houter _ ih =>
        exact .outside ((hnone _).mpr hempty) (by rwa [h.outer]) ih

/-- Whoever ends at the slot reads what was written. -/
theorem get_written (h : heap.Sets later place name value) (hdescends : Descends heap.outer?)
    {id : EnvironmentId} {token : Token} (htoken : token.lexeme = name)
    (hends : later.EndsAt name id place) : later.get id token = .ok value := by
  have hget : later.get? id token.lexeme = some value := by
    rw [htoken, get?_of_endsAt (h.outer ▸ hdescends) hends, h.written]
  rw [get, hget]

/-- Whoever does not end at the slot reads what there was, and fails where it failed. -/
theorem get_kept (h : heap.Sets later place name value) (hdescends : Descends heap.outer?)
    {id : EnvironmentId} {token : Token}
    (hother : ¬(token.lexeme = name ∧ later.EndsAt name id place)) :
    later.get id token = heap.get id token := by
  have hlater : Descends later.outer? := h.outer ▸ hdescends
  have hget : later.get? id token.lexeme = heap.get? id token.lexeme := by
    cases hends : later.binder? id token.lexeme with
    | some end_ =>
        have hafter := (binder?_eq_some_iff hlater).mp hends
        have hslot : ¬(end_ = place ∧ token.lexeme = name) := by
          rintro ⟨rfl, hname⟩
          exact hother ⟨hname, hname ▸ hafter⟩
        rw [get?_of_endsAt hlater hafter, get?_of_endsAt hdescends (h.endsAt_before hafter hslot),
          h.kept end_ token.lexeme hslot]
    | none =>
        have hnone : heap.binder? id token.lexeme = none := by
          refine Option.eq_none_iff_forall_ne_some.mpr fun end_ hbefore => ?_
          obtain ⟨nearest, hafter⟩ := h.exists_endsAt ((binder?_eq_some_iff hdescends).mp hbefore)
          rw [(binder?_eq_some_iff hlater).mpr hafter] at hends
          cases hends
        rw [get?, get?, hends, hnone, Option.bind_none, Option.bind_none]
  rw [get, get, hget]

/-- Reading at a distance sees the slot where the distance leads to it, and no difference
elsewhere. -/
theorem getAt?_eq (h : heap.Sets later place name value) (id : EnvironmentId) (distance : Nat)
    (other : String) :
    later.getAt? id distance other =
      if heap.ancestor id distance = place ∧ other = name then some value
      else heap.getAt? id distance other := by
  rw [getAt?, ancestor_congr h.outer]
  split
  · rename_i hslot
    rw [hslot.1, hslot.2, h.written]
  · rename_i hslot
    exact h.kept _ _ hslot

end Sets

/-- What is seen of a slot that was set, from wherever one begins to look. -/
structure Seen (heap later : Heap) (place : EnvironmentId) (slot : String) (value : Value) :
    Prop where
  written : ∀ start token, token.lexeme = slot → later.EndsAt slot start place →
    later.get start token = .ok value
  kept : ∀ start token, ¬(token.lexeme = slot ∧ later.EndsAt slot start place) →
    later.get start token = heap.get start token
  getAt? : ∀ start distance other, later.getAt? start distance other =
    if heap.ancestor start distance = place ∧ other = slot then some value
    else heap.getAt? start distance other
  stays : ∀ start, heap.EndsAt slot start place → later.EndsAt slot start place
  replaced : (heap.binding? place slot).isSome → ∀ start end_ other,
    later.EndsAt other start end_ ↔ heap.EndsAt other start end_

theorem Sets.seen {place : EnvironmentId} {slot : String} {value : Value}
    (h : heap.Sets later place slot value) (hdescends : Descends heap.outer?) :
    heap.Seen later place slot value where
  written _ _ := h.get_written hdescends
  kept _ _ := h.get_kept hdescends
  getAt? := h.getAt?_eq
  stays _ := h.endsAt_after
  replaced hbound _ _ _ := h.endsAt_iff hbound

/-! ## Laws of a forest -/

section

variable {id place : EnvironmentId}

theorem get_eq_ok_iff (h : Descends heap.outer?) {name : Token} {value : Value} :
    heap.get id name = .ok value ↔
      ∃ place, heap.EndsAt name.lexeme id place ∧
        heap.binding? place name.lexeme = some value := by
  have hget : heap.get id name = .ok value ↔ heap.get? id name.lexeme = some value := by
    rw [get]
    cases heap.get? id name.lexeme <;> simp
  rw [hget, get?, Option.bind_eq_some_iff]
  exact exists_congr fun place => and_congr_left fun _ => binder?_eq_some_iff h

/-- Assigning along the chain is assigning at the distance of the nearest binding. -/
theorem assign_eq_assignAt (h : Descends heap.outer?) {name : Token} {distance : Nat}
    (hends : heap.EndsAt name.lexeme id (heap.ancestor id distance)) (value : Value) :
    heap.assign id name value = .ok (heap.assignAt id distance name.lexeme value) :=
  assign_eq_ok_iff.mpr ⟨_, (binder?_eq_some_iff h).mpr hends, rfl⟩

/-- Where a name is read, assigned and defined from an environment. -/
structure Agreeing (heap : Heap) (id : EnvironmentId) (name : Token) (value : Value) : Prop where
  reads : ∀ old, heap.get id name = .ok old ↔
    ∃ place, heap.EndsAt name.lexeme id place ∧ heap.binding? place name.lexeme = some old
  succeeds : (∃ later, heap.assign id name value = .ok later) ↔ ∃ old, heap.get id name = .ok old
  assigns : ∀ later, heap.assign id name value = .ok later →
    ∃ place, heap.EndsAt name.lexeme id place ∧ heap.Sets later place name.lexeme value
  fails : ∀ error, heap.assign id name value = .error error ↔ heap.get id name = .error error
  unchanged : ∀ (machine after : Run.Machine) (stop : Run.Interrupt), machine.heap = heap →
    Run.assign id name value machine = .error stop after →
      after = machine ∧ ∃ error, stop = .fault error ∧ heap.get id name = .error error
  defines : heap.Sets (heap.define id name.lexeme value) id name.lexeme value
  assignsAt : ∀ distance, heap.Sets (heap.assignAt id distance name.lexeme value)
    (heap.ancestor id distance) name.lexeme value
  atDistance : ∀ place, heap.EndsAt name.lexeme id place →
    ∃ distance, heap.ancestor id distance = place ∧
      (∀ nearer < distance, heap.getAt? id nearer name.lexeme = none) ∧
      heap.getAt? id distance name.lexeme = heap.get? id name.lexeme ∧
      heap.assign id name value = .ok (heap.assignAt id distance name.lexeme value)

theorem Forest.agreeing (h : heap.Forest) (hid : id < heap.environments.size) (name : Token)
    (value : Value) : heap.Agreeing id name value := by
  have hdescends : Descends heap.outer? := h.descends
  have hinside : ∀ distance, heap.ancestor id distance < heap.environments.size := fun distance =>
    Nat.lt_of_le_of_lt (ancestor_le hdescends id distance) hid
  refine ⟨fun old => get_eq_ok_iff hdescends, ⟨?_, ?_⟩, ?_, ?_, ?_, sets_define hid _ _,
    fun distance => sets_define (hinside distance) _ _, ?_⟩
  · rintro ⟨later, hassign⟩
    obtain ⟨place, hbinder, -⟩ := assign_eq_ok_iff.mp hassign
    have hends := (binder?_eq_some_iff hdescends).mp hbinder
    obtain ⟨old, hold⟩ := Option.isSome_iff_exists.mp hends.bound
    exact ⟨old, (get_eq_ok_iff hdescends).mpr ⟨place, hends, hold⟩⟩
  · rintro ⟨old, hget⟩
    obtain ⟨place, hends, -⟩ := (get_eq_ok_iff hdescends).mp hget
    exact ⟨_, assign_eq_ok_iff.mpr ⟨place, (binder?_eq_some_iff hdescends).mpr hends, rfl⟩⟩
  · intro later hassign
    obtain ⟨place, hbinder, rfl⟩ := assign_eq_ok_iff.mp hassign
    have hends := (binder?_eq_some_iff hdescends).mp hbinder
    obtain ⟨distance, rfl, -⟩ := hends.ancestor
    exact ⟨_, hends, sets_define (hinside distance) _ _⟩
  · intro error
    rw [assign_eq_error_iff, get_eq_error_iff]
  · rintro machine after stop rfl hfailed
    rw [Run.assign_eq] at hfailed
    cases hassign : machine.heap.assign id name value with
    | ok later => simp [hassign] at hfailed
    | error error =>
        rw [hassign] at hfailed
        cases hfailed
        exact ⟨rfl, error, rfl, get_eq_error_iff.mpr (assign_eq_error_iff.mp hassign)⟩
  · intro place hends
    obtain ⟨distance, rfl, hnearer⟩ := hends.ancestor
    exact ⟨distance, rfl, hnearer, (get?_of_endsAt hdescends hends).symm,
      assign_eq_assignAt hdescends hends value⟩

/-- Distances add up, and lead to an outermost environment that no further step leaves. -/
structure Ancestry (heap : Heap) (id : EnvironmentId) : Prop where
  add : ∀ near far, heap.ancestor id (near + far) = heap.ancestor (heap.ancestor id near) far
  stays : ∀ near far, heap.outer? (heap.ancestor id near) = none →
    heap.ancestor id (near + far) = heap.ancestor id near
  outermost : ∃ distance, heap.outer? (heap.ancestor id distance) = none

theorem Forest.ancestry (h : heap.Forest) (id : EnvironmentId) : heap.Ancestry id where
  add := ancestor_add heap id
  stays near far houtermost := by rw [ancestor_add, ancestor_of_outermost houtermost]
  outermost := ⟨id, outer?_ancestor h.descends (Nat.le_refl id)⟩

/-- In a forest, a name is assigned where it is read: assignment fails where reading fails, with the
same error and no change, and otherwise sets the slot at which the lookup ends. A definition sets a
slot of the environment itself, and assigning at a distance sets the slot at that distance, which is
the same as assigning along the chain where the distance is that of the nearest binding. Whatever
slot is set, lookups that end there see the new value from wherever they begin, along the chain as
well as at a distance, and all others see what they saw. -/
theorem write_seen_through_chains (h : heap.Forest) (hid : id < heap.environments.size)
    (name : Token) (value : Value) :
    heap.Agreeing id name value ∧
    (∀ (later : Heap) (place : EnvironmentId) (slot : String) (new : Value),
      heap.Sets later place slot new → heap.Seen later place slot new) ∧
    heap.Ancestry id :=
  ⟨h.agreeing hid name value, fun _ _ _ _ hsets => hsets.seen h.descends, h.ancestry id⟩

/-- Two environments inside one that binds a name, of which the second one binds it as well and has
another one inside it. -/
def siblings : Heap :=
  let first := (⟨#[], #[], #[], #[]⟩ : Heap).outermost.2.define 0 "x" .nil
  let inner := (first.child 0).2
  ((inner.child 0).2.define 2 "x" (.bool true)).child 2 |>.2

theorem siblings_forest : siblings.Forest :=
  .child none (.define "x" (.bool true) (.child none (.child none (.define "x" .nil
    (.outermost (.bare rfl)) (by decide)) (by decide)) (by decide)) (by decide)) (by decide)

/-- What the first of two siblings assigns is seen by the environment around both, and not by what
is inside the second one, where the name is shadowed. -/
theorem write_seen_through_chains_siblings :
    let x : Token := ⟨.identifier, "x", 1⟩
    siblings.Forest ∧ 1 < siblings.environments.size ∧
      siblings.EndsAt "x" 1 0 ∧ siblings.EndsAt "x" 3 2 ∧
      ∃ later, siblings.assign 1 x (.bool false) = .ok later ∧
        later.get 0 x = .ok (.bool false) ∧ later.get 3 x = .ok (.bool true) := by
  intro x
  have hfirst : siblings.EndsAt "x" 1 0 := .outside rfl rfl (.here rfl)
  have hsecond : siblings.EndsAt "x" 3 2 := .outside rfl rfl (.here rfl)
  obtain ⟨hagreeing, hseen, -⟩ :=
    write_seen_through_chains siblings_forest (by decide : 1 < siblings.environments.size) x
      (.bool false)
  have hread : siblings.get 1 x = .ok .nil := (hagreeing.reads .nil).mpr ⟨0, hfirst, rfl⟩
  obtain ⟨later, hlater⟩ := hagreeing.succeeds.mpr ⟨.nil, hread⟩
  obtain ⟨place, hends, hset⟩ := hagreeing.assigns later hlater
  obtain rfl : place = 0 := by
    have hbinder := (binder?_eq_some_iff siblings_forest.descends).mpr hends
    exact (Option.some.inj hbinder).symm
  have hafter := hseen later 0 "x" (.bool false) hset
  refine ⟨siblings_forest, by decide, hfirst, hsecond, later, hlater,
    hafter.written 0 x rfl (hafter.stays 0 (.here rfl)), ?_⟩
  rw [hafter.kept 3 x]
  · rfl
  · rintro ⟨-, hends⟩
    have hbinder := (binder?_eq_some_iff siblings_forest.descends).mpr
      ((hafter.replaced rfl 3 0 "x").mp hends)
    exact absurd hbinder (by decide)

end

end Lox.Heap
