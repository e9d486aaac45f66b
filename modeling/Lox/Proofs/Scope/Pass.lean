import Lox.Proofs.Scope.Rule
import Std.Data.TreeMap.Lemmas

/-!
# What the resolver knows and does

`Fits` says that the resolver's state knows what a place says: which names are declared and which
of them can be read, and the kinds of function and class around. `Effect` says what a pass over a
piece of program with given sites adds to the errors and to the distances.
-/

namespace Lox.Scope

/-! ## Knowledge -/

/-- The kind of the nearest function around a place. -/
def Place.functionKind (place : Place) : FunctionKind :=
  match place.functions with
  | [] => .none
  | .function _ :: _ => .function
  | .method declaration :: _ => methodKind declaration

/-- The kind of the nearest class around a place. -/
def Place.classKind (place : Place) : ClassKind :=
  match place.classes with
  | [] => .none
  | none :: _ => .base
  | some _ :: _ => .derived

/-- What a scope knows of a name when nothing is being initialized. -/
def Frame.progress? (frame : Frame) (name : String) : Option Progress :=
  if name ∈ frame.names then some .defined else none

/-- What is known of a name in the scope at a depth. -/
def Place.progress? (place : Place) (depth : Nat) (name : String) : Option Progress :=
  if depth = 0 ∧ place.initializing = some name then some .declared
  else place.scopes[depth]?.bind (·.progress? name)

/-- The resolver's state knows what the place says. -/
structure Fits (state : State) (place : Place) : Prop where
  function : state.function = place.functionKind
  class_ : state.class_ = place.classKind
  depth : state.scopes.length = place.scopes.length
  knows : ∀ depth name, state.scopes[depth]?.bind (·.get? name) = place.progress? depth name

theorem fits_start : Fits .start .top := by
  refine ⟨rfl, rfl, rfl, ?_⟩
  intro depth name
  simp [State.start, Place.top, Place.progress?]

/-- Searches agree on lists whose entries are alike for them. -/
private theorem findIdx?_eq_of_map_eq {α β : Type} {p : α → Bool} {q : β → Bool} {xs : List α}
    {ys : List β} (h : xs.map p = ys.map q) : xs.findIdx? p = ys.findIdx? q := by
  have hmap := congrArg (List.findIdx? id) h
  simpa [List.findIdx?_map] using hmap

namespace Fits

variable {state state' : State} {place : Place}

theorem known_eq (h : Fits state place) (name : String) :
    known state name = place.progress? 0 name := by
  rw [← h.knows 0 name, known, List.head?_eq_getElem?]

/-- The resolver finds a name where the place says that it is. -/
theorem distance?_eq (h : Fits state place) (name : String) :
    distance? name state.scopes = place.distance? name := by
  by_cases hname : place.initializing = some name
  · have hknows := h.knows 0 name
    simp only [Place.progress?, hname, and_self, if_true] at hknows
    cases hscopes : state.scopes with
    | nil => simp [hscopes] at hknows
    | cons scope scopes =>
        simp only [hscopes, List.getElem?_cons_zero, Option.bind_some] at hknows
        simp [distance?, Place.distance?, hname, List.findIdx?_cons, Table.contains, hknows]
  · simp only [distance?, Place.distance?, if_neg hname]
    apply findIdx?_eq_of_map_eq
    apply List.ext_getElem?
    intro depth
    have hknows := h.knows depth name
    have hdepth := h.depth
    simp only [Place.progress?, hname, and_false, if_false] at hknows
    by_cases hlt : depth < place.scopes.length
    · have hlt' : depth < state.scopes.length := by omega
      simp only [List.getElem?_eq_getElem hlt, List.getElem?_eq_getElem hlt',
        Option.bind_some, Frame.progress?] at hknows
      by_cases hmem : name ∈ place.scopes[depth].names <;>
        simp [hlt, hlt', Table.contains, hknows, hmem]
    · simp [List.getElem?_eq_none (Nat.le_of_not_lt hlt),
        List.getElem?_eq_none (show state.scopes.length ≤ depth by omega)]

/-- Only scopes and kinds count. -/
theorem congr (h : Fits state place) (hscopes : state'.scopes = state.scopes)
    (hfunction : state'.function = state.function) (hclass : state'.class_ = state.class_) :
    Fits state' place := by
  refine ⟨hfunction.trans h.function, hclass.trans h.class_, ?_, ?_⟩
  · rw [hscopes, h.depth]
  · intro depth name
    rw [hscopes, h.knows]

/-- The way to a place does not count. -/
theorem branch (h : Fits state place) (index : Nat) : Fits state (place.branch index) :=
  ⟨h.function, h.class_, h.depth, h.knows⟩

theorem next (h : Fits state place) : Fits state place.next :=
  ⟨h.function, h.class_, h.depth, h.knows⟩

end Fits

/-! ## Knowledge and scopes -/

/-- The innermost scope with a name entered into it. -/
def enterInto (name : String) (progress : Progress) :
    List (Table Progress) → List (Table Progress)
  | [] => []
  | scope :: outer => scope.insert name progress :: outer

theorem modify_eq (change : State → State) (state : State) :
    (modify change : Pass) state = ((), change state) := rfl

theorem bind_get_eq (next : State → Pass) (state : State) :
    ((get : StateM State State) >>= next) state = next state state := rfl

theorem note_eq (fault : ScopeFault) (token : Token) (state : State) :
    (note fault token state).2 = { state with errors := state.errors ++ [⟨fault, token⟩] } := rfl

theorem openScope_eq (state : State) :
    (openScope state).2 = { state with scopes := .empty :: state.scopes } := rfl

theorem enter_eq (name : String) (progress : Progress) (state : State) :
    (enter name progress state).2 = { state with scopes := enterInto name progress state.scopes } := by
  obtain ⟨scopes, distances, errors, kind, class_⟩ := state
  cases scopes <;> rfl

theorem declare_eq (name : Token) (state : State) :
    (declare name state).2 =
      { state with
        scopes := enterInto name.lexeme .declared state.scopes
        errors := state.errors ++
          if (known state name.lexeme).isSome then [⟨.alreadyDeclared, name⟩] else [] } := by
  have hdeclare : (declare name state).2 =
      ((if (known state name.lexeme).isSome then note .alreadyDeclared name else pure () : Pass)
        (enter name.lexeme .declared state).2).2 := by
    rw [declare, bind_get_eq]
    rfl
  rw [hdeclare]
  by_cases hknown : (known state name.lexeme).isSome
  · rw [if_pos hknown, if_pos hknown, note_eq, enter_eq]
  · rw [if_neg hknown, if_neg hknown, List.append_nil]
    exact enter_eq name.lexeme .declared state

theorem define_eq (name : Token) (state : State) :
    (define name state).2 =
      { state with scopes := enterInto name.lexeme .defined state.scopes } :=
  enter_eq name.lexeme .defined state

theorem length_enterInto (name : String) (progress : Progress) (scopes : List (Table Progress)) :
    (enterInto name progress scopes).length = scopes.length := by
  cases scopes <;> rfl

theorem get?_enterInto (name other : String) (progress : Progress)
    (scopes : List (Table Progress)) (depth : Nat) :
    (enterInto name progress scopes)[depth]?.bind (·.get? other) =
      if depth = 0 ∧ name = other ∧ scopes ≠ [] then some progress
      else scopes[depth]?.bind (·.get? other) := by
  cases scopes with
  | nil => simp [enterInto]
  | cons scope outer =>
      cases depth with
      | zero => by_cases h : name = other <;> simp [enterInto, Table.get?_insert, h]
      | succ depth => simp [enterInto]

theorem progress?_declareIn (name other : String) (frames : List Frame) (depth : Nat) :
    (Place.declareIn [name] frames)[depth]?.bind (·.progress? other) =
      if depth = 0 ∧ name = other ∧ frames ≠ [] then some .defined
      else frames[depth]?.bind (·.progress? other) := by
  cases frames with
  | nil => simp [Place.declareIn]
  | cons frame outer =>
      cases depth with
      | zero =>
          by_cases h : name = other
          · simp [Place.declareIn, Frame.progress?, h]
          · simp [Place.declareIn, Frame.progress?, h, Ne.symm h]
      | succ depth => simp [Place.declareIn]

theorem length_declareIn (names : List String) (frames : List Frame) :
    (Place.declareIn names frames).length = frames.length := by
  cases frames <;> rfl

namespace Fits

variable {state state' : State} {place inner : Place}

/-- A declared name cannot be read until it is defined. -/
theorem declare (h : Fits state place) (hidle : place.initializing = none) (name : Token) :
    Fits (declare name state).2 (place.initializerOf name.lexeme) := by
  rw [declare_eq]
  have hempty : state.scopes = [] ↔ place.scopes = [] := by
    rw [← List.length_eq_zero_iff, h.depth, List.length_eq_zero_iff]
  by_cases hscopes : place.scopes = []
  · have hstate := hempty.mpr hscopes
    have hplace : place.initializerOf name.lexeme = place := by
      simp [Place.initializerOf, hscopes]
    rw [hplace]
    exact h.congr (by simp [hstate, enterInto]) rfl rfl
  · have hplace : place.initializerOf name.lexeme =
        { place with initializing := some name.lexeme } := by
      simp [Place.initializerOf, hscopes]
    rw [hplace]
    refine ⟨h.function, h.class_, ?_, ?_⟩
    · simpa [length_enterInto] using h.depth
    · intro depth other
      have hknows := h.knows depth other
      simp only [Place.progress?, hidle, reduceCtorEq, and_false, if_false] at hknows
      simp only [get?_enterInto, hknows, Place.progress?, Option.some.injEq]
      by_cases hdepth : depth = 0 <;> by_cases hname : name.lexeme = other <;>
        simp [hdepth, hname, hempty, hscopes]

/-- A defined name can be read from then on. -/
theorem define (h : Fits state (place.initializerOf name)) (hidle : place.initializing = none)
    (token : Token) (htoken : token.lexeme = name) :
    Fits (define token state).2 (place.declare [name]) := by
  rw [define_eq, htoken]
  by_cases hscopes : place.scopes = []
  · have hplace : place.initializerOf name = place := by simp [Place.initializerOf, hscopes]
    have hdeclare : place.declare [name] = place := by
      rw [Place.declare, hscopes, Place.declareIn, ← hscopes]
    rw [hplace] at h
    have hstate : state.scopes = [] := by
      rw [← List.length_eq_zero_iff, h.depth, hscopes, List.length_nil]
    rw [hdeclare]
    exact h.congr (by simp [hstate, enterInto]) rfl rfl
  · have hplace : place.initializerOf name = { place with initializing := some name } := by
      simp [Place.initializerOf, hscopes]
    rw [hplace] at h
    have hstate : state.scopes ≠ [] := by
      intro hnil
      apply hscopes
      rw [← List.length_eq_zero_iff, ← h.depth, hnil, List.length_nil]
    refine ⟨h.function, h.class_, ?_, ?_⟩
    · simpa [length_enterInto, Place.declare, length_declareIn] using h.depth
    · intro depth other
      have hknows := h.knows depth other
      simp only [Place.progress?, Option.some.injEq] at hknows
      simp only [get?_enterInto, Place.progress?, Place.declare, hidle, reduceCtorEq, and_false,
        if_false, progress?_declareIn]
      by_cases hdepth : depth = 0 <;> by_cases hname : name = other <;>
        simp_all

/-- Opening a scope that holds no names yet. -/
theorem opened (h : Fits state place) (hidle : place.initializing = none) (region : Region) :
    Fits (openScope state).2 (place.enter region []) := by
  refine ⟨h.function, h.class_, ?_, ?_⟩
  · simpa [openScope_eq, Place.enter] using h.depth
  · intro depth name
    have hknows := fun depth => h.knows depth name
    simp only [Place.progress?, hidle, reduceCtorEq, and_false, if_false] at hknows
    cases depth with
    | zero => simp [openScope_eq, Place.enter, Place.progress?, hidle, Frame.progress?]
    | succ depth => simp [openScope_eq, Place.enter, Place.progress?, hknows]

/-- Opening a scope that holds a name of its own. -/
theorem openedWith (h : Fits state place) (hidle : place.initializing = none) (region : Region)
    (name : String) :
    Fits (enter name .defined (openScope state).2).2 (place.enter region [name]) := by
  have hopened := h.opened hidle region
  rw [enter_eq]
  refine ⟨h.function, h.class_, ?_, ?_⟩
  · simpa [length_enterInto, Place.enter] using hopened.depth
  · intro depth other
    have hknows := hopened.knows depth other
    simp only [Place.progress?, Place.enter, hidle, reduceCtorEq, and_false, if_false] at hknows
    have hne : (openScope state).2.scopes ≠ [] := List.cons_ne_nil _ _
    simp only [get?_enterInto, hknows, Place.progress?, Place.enter, hidle, reduceCtorEq,
      and_false, if_false]
    cases depth with
    | zero => by_cases hname : name = other <;>
        simp [hname, hne, Frame.progress?, eq_comm]
    | succ depth => simp

/-- What was known around a scope is known again when the scope is closed. -/
theorem closed (h : Fits state inner) (hidle : inner.initializing = none)
    (hplace : place.initializing = none) (hscopes : place.scopes = inner.scopes.tail)
    (hstate : state'.scopes = state.scopes.tail)
    (hfunction : state'.function = place.functionKind) (hclass : state'.class_ = place.classKind) :
    Fits state' place := by
  refine ⟨hfunction, hclass, ?_, ?_⟩
  · rw [hstate, hscopes, List.length_tail, List.length_tail, h.depth]
  · intro depth name
    have hknows := h.knows (depth + 1) name
    simp only [Place.progress?, hidle, reduceCtorEq, and_false, if_false] at hknows
    simpa [Place.progress?, hplace, hscopes, hstate] using hknows

end Fits

/-! ## Effects -/

/-- The distance that is recorded for a use. For `this` and `super` none is recorded outside a
class, or a class with a superclass. -/
def Place.matched? (place : Place) (u : Use) : Option Nat :=
  match u.kind, place.classKind with
  | .this_, .none | .super_, .none | .super_, .base => none
  | _, _ => place.distance? u.token.lexeme

/-- A pass over a piece of program with the given sites adds their violations to the errors, and to
the distances those of their uses. -/
structure Effect (occurrences : List Occurrence) (before after : State) : Prop where
  errors : ∃ found, after.errors = before.errors ++ found ∧ found.Perm (violations occurrences)
  untouched : ∀ node ∉ useNodes occurrences, after.distances[node]? = before.distances[node]?
  matched : (useNodes occurrences).Nodup → ∀ place u, ⟨place, .use u⟩ ∈ occurrences →
    after.distances[u.node]? = (place.matched? u).or before.distances[u.node]?

theorem useNodes_append (xs ys : List Occurrence) :
    useNodes (xs ++ ys) = useNodes xs ++ useNodes ys :=
  List.filterMap_append

theorem mem_useNodes {occurrences : List Occurrence} {place : Place} {u : Use}
    (h : ⟨place, .use u⟩ ∈ occurrences) : u.node ∈ useNodes occurrences :=
  List.mem_filterMap.mpr ⟨_, h, rfl⟩

namespace Effect

variable {xs ys : List Occurrence} {before middle after : State}

theorem silent (herrors : after.errors = before.errors)
    (hdistances : after.distances = before.distances) : Effect [] before after := by
  refine ⟨⟨[], by simpa using herrors, by simp⟩, ?_, ?_⟩
  · intro node _
    rw [hdistances]
  · intro _ place u hmem
    simp at hmem

theorem append (hx : Effect xs before middle) (hy : Effect ys middle after) :
    Effect (xs ++ ys) before after := by
  obtain ⟨⟨found, hfound, hperm⟩, huntouched, hmatched⟩ := hx
  obtain ⟨⟨found', hfound', hperm'⟩, huntouched', hmatched'⟩ := hy
  refine ⟨⟨found ++ found', ?_, ?_⟩, ?_, ?_⟩
  · rw [hfound', hfound, List.append_assoc]
  · exact (hperm.append hperm').trans (violations_append xs ys).symm
  · intro node hnode
    rw [useNodes_append, List.mem_append, not_or] at hnode
    rw [huntouched' node hnode.2, huntouched node hnode.1]
  · intro hnodup place u hmem
    rw [useNodes_append, List.nodup_append] at hnodup
    obtain ⟨hx, hy, hdisjoint⟩ := hnodup
    rcases List.mem_append.mp hmem with hmem | hmem
    · have hnode : u.node ∉ useNodes ys := by
        intro hnode
        exact hdisjoint _ (mem_useNodes hmem) _ hnode rfl
      rw [huntouched' _ hnode, hmatched hx place u hmem]
    · have hnode : u.node ∉ useNodes xs := by
        intro hnode
        exact hdisjoint _ hnode _ (mem_useNodes hmem) rfl
      rw [hmatched' hy place u hmem, huntouched _ hnode]

theorem perm (h : Effect xs before after) (hperm : xs.Perm ys) : Effect ys before after := by
  obtain ⟨⟨found, hfound, hviolations⟩, huntouched, hmatched⟩ := h
  have hnodes : (useNodes xs).Perm (useNodes ys) := hperm.filterMap _
  refine ⟨⟨found, hfound, hviolations.trans (violations_perm hperm)⟩, ?_, ?_⟩
  · intro node hnode
    exact huntouched node fun hmem => hnode (hnodes.mem_iff.mp hmem)
  · intro hnodup place u hmem
    exact hmatched (hnodes.nodup_iff.mpr hnodup) place u (hperm.mem_iff.mpr hmem)

/-- Only errors and distances count. -/
theorem congr {before' after' : State} (h : Effect xs before after)
    (herrors : before'.errors = before.errors) (hdistances : before'.distances = before.distances)
    (herrors' : after'.errors = after.errors) (hdistances' : after'.distances = after.distances) :
    Effect xs before' after' := by
  obtain ⟨herr, huntouched, hmatched⟩ := h
  rw [← herrors, ← herrors'] at herr
  rw [← hdistances, ← hdistances'] at huntouched hmatched
  exact ⟨herr, huntouched, hmatched⟩

/-- The effect of a step at a site that is no use. -/
theorem report {occurrence : Occurrence} (huse : ∀ u, occurrence.site ≠ .use u)
    (herrors : after.errors = before.errors ++ violations [occurrence])
    (hdistances : after.distances = before.distances) : Effect [occurrence] before after := by
  refine ⟨⟨_, herrors, .refl _⟩, ?_, ?_⟩
  · intro node _
    rw [hdistances]
  · intro _ place u hmem
    rw [List.mem_singleton] at hmem
    exact absurd (congrArg Occurrence.site hmem).symm (huse u)

/-- The effect of a step at a use. -/
theorem use {place : Place} {u : Use}
    (herrors : after.errors = before.errors ++ violations [⟨place, .use u⟩])
    (hdistances : after.distances =
      (place.matched? u).elim before.distances (before.distances.insert u.node)) :
    Effect [⟨place, .use u⟩] before after := by
  refine ⟨⟨_, herrors, .refl _⟩, ?_, ?_⟩
  · intro node hnode
    have hne : u.node ≠ node := by
      intro heq
      exact hnode (by simp [useNodes, heq])
    rw [hdistances]
    cases place.matched? u with
    | none => rfl
    | some distance => simp [Std.TreeMap.getElem?_insert, hne]
  · intro _ place' u' hmem
    simp only [List.mem_singleton, Occurrence.mk.injEq, Site.use.injEq] at hmem
    obtain ⟨rfl, rfl⟩ := hmem
    rw [hdistances]
    cases place'.matched? u' with
    | none => simp
    | some distance => simp

end Effect

end Lox.Scope
