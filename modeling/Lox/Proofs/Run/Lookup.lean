import Lox.Proofs.Run.Sources

/-!
# Names reach the environments of their scopes

Whenever a run evaluates a use of a name, the distance of the use leads to the very environment
that was made for the scope in which the name was matched, and a use without a distance goes to the
globals and nowhere else.
-/

namespace Lox

/-- The use that an expression itself is. -/
def Expr.use? : Expr → Option Use
  | .var id name => some ⟨.var, name, id⟩
  | .assign id name _ => some ⟨.assign, name, id⟩
  | .this_ id keyword => some ⟨.this_, keyword, id⟩
  | .super_ id keyword _ => some ⟨.super_, keyword, id⟩
  | _ => none

theorem Expr.use?_mem {e : Expr} {u : Use} (h : e.use? = some u) : u ∈ e.uses := by
  cases e <;> simp_all [Expr.use?, Expr.uses]

namespace Run

open Scope (Distances Frame Place ScopeFault)

/-! ## Where a use goes -/

/-- Exactly so many steps outwards from the current environment lead to the environment `target`,
which was made for the scope at that depth around the place. -/
structure Machine.AtScope (machine : Machine) (place : Place) (distance : Nat)
    (target : EnvironmentId) : Prop where
  walk : machine.heap.Walk distance machine.environment target
  scope : ∃ frame, place.scopes[distance]? = some frame ∧
    (machine.heap.environment target).region = some frame.region

/-- What is evaluated is a use that goes to the environment of a scope. A read finds its name
bound there. An assignment finds it bound as well or is in the initializer of the name, and
writes there once its value is evaluated. -/
structure GoesToScope (place : Place) (e : Expr) (u : Use) (machine : Machine)
    (distance : Nat) (target : EnvironmentId) : Prop where
  scope : machine.AtScope place distance target
  read : u.kind ≠ .assign → ∃ value, machine.heap.binding? target u.token.lexeme = some value ∧
    (u.kind ≠ .super_ → ∀ sub, evaluate sub e machine = .ok value machine)
  defined : u.kind ≠ .assign → ∀ sub name token after,
    evaluate sub e machine ≠ .error (.fault ⟨.undefinedVariable name, token⟩) after
  write : u.kind = .assign → (machine.heap.binding? target u.token.lexeme).isSome ∨
    place.initializing = some u.token.lexeme
  written : ∀ value, e = .assign u.node u.token value → ∀ fuel result after,
    Task.run fuel (.evaluate value) machine = .ok result after →
      after.AtScope place distance target ∧ evaluate (Task.run fuel) e machine =
        .ok result { after with heap := after.heap.define target u.token.lexeme result }

/-- What is evaluated is a use that goes to the globals only. -/
structure GoesToGlobals (e : Expr) (u : Use) (machine : Machine) : Prop where
  read : u.kind = .var → ∀ sub, evaluate sub e machine =
    match machine.heap.binding? Heap.globals u.token.lexeme with
    | some value => .ok value machine
    | none => .error (.fault (Heap.undefined u.token)) machine
  written : ∀ value, e = .assign u.node u.token value → ∀ fuel result after,
    Task.run fuel (.evaluate value) machine = .ok result after →
      evaluate (Task.run fuel) e machine =
        if (after.heap.binding? Heap.globals u.token.lexeme).isSome then
          .ok result { after with
            heap := after.heap.define Heap.globals u.token.lexeme result }
        else .error (.fault (Heap.undefined u.token)) after

variable {known : List Occurrence} {distances : Distances} {machine after : Machine}
  {place : Place} {e : Expr} {u : Use} {distance : Nat}

/-! ## Places and scopes -/

/-- A use with a distance is of a name that the scope at that depth declares, or that is being
initialized. -/
theorem matched_scope (hbelongs : (Task.evaluate e).Belongs known place) (huse : e.use? = some u)
    (hlawful : ScopeFault.readInInitializer.arisesAt ⟨place, .use u⟩ = false)
    (hmatched : place.matched? u = some distance) :
    ∃ frame, place.scopes[distance]? = some frame ∧
      (u.token.lexeme ∈ frame.names ∨
        u.kind = .assign ∧ place.initializing = some u.token.lexeme) := by
  have hdistance : place.distance? u.token.lexeme = some distance := by
    rw [Place.matched?] at hmatched
    split at hmatched
    · cases hmatched
    · cases hmatched
    · cases hmatched
    · exact hmatched
  rw [Place.distance?] at hdistance
  split at hdistance
  · next hinitializing =>
      cases hdistance
      obtain ⟨hscopes, hspelling⟩ := hbelongs.fits _ hinitializing
      obtain ⟨frame, outer, hframes⟩ := List.exists_cons_of_ne_nil hscopes
      refine ⟨frame, by rw [hframes]; rfl, .inr ⟨?_, hinitializing⟩⟩
      have hformed := hbelongs.formed
      cases e with
      | var id name =>
          cases huse
          simp [ScopeFault.arisesAt, hinitializing] at hlawful
      | assign id name value =>
          cases huse
          rfl
      | this_ id keyword =>
          cases huse
          exact absurd (hformed.property.keyword hformed.category) (hspelling .this_)
      | super_ id keyword method =>
          cases huse
          exact absurd (hformed.1.property.keyword hformed.1.category) (hspelling .super_)
      | _ => cases huse
  · obtain ⟨hlt, hname, -⟩ := List.findIdx?_eq_some_iff_getElem.mp hdistance
    exact ⟨place.scopes[distance], List.getElem?_eq_getElem hlt, .inl (by simpa using hname)⟩

theorem Stands.atScope (hstands : Stands known distances place machine) {frame : Frame}
    (hframe : place.scopes[distance]? = some frame) :
    ∃ target, machine.AtScope place distance target ∧
      ∀ name ∈ frame.names, (machine.heap.binding? target name).isSome := by
  obtain ⟨target, hwalk, hregion, hnames⟩ := hstands.scopes.walk hframe
  exact ⟨target, ⟨hwalk, frame, hframe, hregion⟩, hnames⟩

theorem Machine.AtScope.kept {target : EnvironmentId} (h : machine.AtScope place distance target)
    (hkept : Kept known machine after) : after.AtScope place distance target := by
  obtain ⟨hwalk, frame, hframe, hregion⟩ := h
  refine ⟨?_, frame, hframe, ?_⟩
  · rw [hkept.environment]
    exact hwalk.grows hkept.grows
  · rw [hkept.grows.region target (Heap.lt_size_of_region hregion), hregion]

/-! ## Uses with a distance -/

/-- An assignment evaluates its value and then writes the name. -/
theorem evaluate_assign {sub : Runner} {id : NodeId} {name : Token} {value : Expr} {result : Value}
    (h : sub (.evaluate value) machine = .ok result after) :
    evaluate sub (.assign id name value) machine =
      match writeVariable id name result after with
      | .ok _ last => .ok result last
      | .error interrupt last => .error interrupt last := by
  simp only [evaluate, Bind.bind, EStateM.bind, h]
  cases writeVariable id name result after <;> rfl

/-- The action never ends for the reason that a variable is undefined. -/
def FindsVariables {α : Type} (action : Action α) : Prop :=
  ∀ machine name token after,
    action machine ≠ .error (.fault ⟨.undefinedVariable name, token⟩) after

theorem FindsVariables.fail {α : Type} {fault : RuntimeFault} (token : Token)
    (h : ∀ name, fault ≠ .undefinedVariable name) :
    FindsVariables (Run.fail fault token : Action α) := by
  intro machine name other after heq
  cases heq
  exact h name rfl

theorem readSuper_findsVariables (node : NodeId) (keyword method : Token) :
    FindsVariables (readSuper node keyword method) := by
  have hget : ∀ {α : Type} (second : Machine → Action α),
      (∀ machine, FindsVariables (second machine)) → FindsVariables (get >>= second) :=
    fun second hsecond machine => hsecond machine machine
  refine hget _ fun machine => ?_
  split
  · exact FindsVariables.fail _ (by simp)
  · split
    · split
      · split
        · intro machine name token after heq
          cases heq
        · exact FindsVariables.fail _ (by simp)
      · exact FindsVariables.fail _ (by simp)
    · exact FindsVariables.fail _ (by simp)

/-- The value of an assignment is evaluated at the place of the assignment. -/
theorem value_kept {id : NodeId} {name : Token} {value : Expr} {fuel : Nat} {result : Value}
    (hstands : Stands known distances place machine)
    (hbelongs : (Task.evaluate (.assign id name value)).Belongs known place)
    (h : Task.run fuel (.evaluate value) machine = .ok result after) : Kept known machine after := by
  obtain ⟨hknown, hformed, hfits⟩ := hbelongs
  rw [Task.sites, Expr.sites, Expr.uses, List.map_cons, List.cons_subset] at hknown
  have hvalue : (Task.evaluate value).Belongs known place := ⟨hknown.2, hformed.2, hfits⟩
  have hkept := run_kept fuel hstands hvalue
  rwa [h] at hkept

theorem goesToScope_of_matched (hstands : Stands known distances place machine)
    (hbelongs : (Task.evaluate e).Belongs known place) (huse : e.use? = some u)
    (hlawful : ScopeFault.readInInitializer.arisesAt ⟨place, .use u⟩ = false)
    (hmatched : place.matched? u = some distance)
    (hdistance : machine.distances[u.node]? = some distance) :
    ∃ target, GoesToScope place e u machine distance target := by
  obtain ⟨frame, hframe, hdeclared⟩ := matched_scope hbelongs huse hlawful hmatched
  obtain ⟨target, hscope, hnames⟩ := hstands.atScope hframe
  have hread : u.kind ≠ .assign →
      ∃ value, machine.heap.binding? target u.token.lexeme = some value := by
    intro hkind
    rcases hdeclared with hname | ⟨hassign, -⟩
    · exact Option.isSome_iff_exists.mp (hnames _ hname)
    · exact absurd hassign hkind
  have hvariable : ∀ value, machine.heap.binding? target u.token.lexeme = some value →
      readVariable u.node u.token machine = .ok value machine := by
    intro value hvalue
    rw [readVariable_local hdistance, Heap.getAt?, hscope.walk.ancestor_eq, hvalue]
  refine ⟨target, hscope, ?_, ?_, ?_, ?_⟩
  · intro hkind
    obtain ⟨value, hvalue⟩ := hread hkind
    refine ⟨value, hvalue, fun hsuper sub => ?_⟩
    cases e with
    | var id name => cases huse; exact hvariable value hvalue
    | this_ id keyword => cases huse; exact hvariable value hvalue
    | assign id name value => cases huse; exact absurd rfl hkind
    | super_ id keyword method => cases huse; exact absurd rfl hsuper
    | _ => cases huse
  · intro hkind sub name token after
    obtain ⟨value, hvalue⟩ := hread hkind
    cases e with
    | var id name =>
        cases huse
        change readVariable id _ machine ≠ _
        rw [hvariable value hvalue]
        simp
    | this_ id keyword =>
        cases huse
        change readVariable id _ machine ≠ _
        rw [hvariable value hvalue]
        simp
    | assign id name value => cases huse; exact absurd rfl hkind
    | super_ id keyword method => exact readSuper_findsVariables _ _ _ _ _ _ _
    | _ => cases huse
  · rintro -
    rcases hdeclared with hname | ⟨-, hinitializing⟩
    · exact .inl (hnames _ hname)
    · exact .inr hinitializing
  · rintro value rfl fuel result after hvalue
    have hkept := value_kept hstands hbelongs hvalue
    have hscope' := hscope.kept hkept
    have hdistance' : after.distances[u.node]? = some distance := by
      rw [hkept.distances, hdistance]
    refine ⟨hscope', ?_⟩
    rw [evaluate_assign hvalue, writeVariable_local hdistance', Heap.assignAt,
      hscope'.walk.ancestor_eq]

/-! ## Uses without a distance -/

theorem goesToGlobals_of_unmatched (hstands : Stands known distances place machine)
    (hbelongs : (Task.evaluate e).Belongs known place) (huse : e.use? = some u)
    (hdistance : machine.distances[u.node]? = none) : GoesToGlobals e u machine := by
  refine ⟨?_, ?_⟩
  · intro hkind sub
    cases e with
    | var id name =>
        cases huse
        change readVariable id name machine = _
        rw [readVariable_global hdistance, Heap.get, get?_of_outermost hstands.heap.outermost]
        cases machine.heap.binding? Heap.globals name.lexeme <;> rfl
    | assign id name value => cases huse; cases hkind
    | this_ id keyword => cases huse; cases hkind
    | super_ id keyword method => cases huse; cases hkind
    | _ => cases huse
  · rintro value rfl fuel result after hvalue
    have hkept := value_kept hstands hbelongs hvalue
    have hdistance' : after.distances[u.node]? = none := by rw [hkept.distances, hdistance]
    have houtermost : (after.heap.environment Heap.globals).enclosing = none := hkept.heap.outermost
    rw [evaluate_assign hvalue, writeVariable_global hdistance', assign_eq, Heap.assign,
      binder?_of_outermost houtermost]
    cases (after.heap.binding? Heap.globals u.token.lexeme).isSome <;> rfl

/-! ## What some steps ask for -/

theorem executeAll_asks_first (sub : Runner) (first : Stmt) (rest : List Stmt)
    (machine : Machine) :
    Asks sub (.executeAll (first :: rest)) machine (.execute first) machine := by
  refine asks_of_interrupt fun other interrupt _ hinner => ⟨machine, ?_⟩
  simp only [Task.step, executeAll, Bind.bind, EStateM.bind, hinner]

theorem executeAll_asks_rest {sub : Runner} {first : Stmt} {machine after : Machine}
    (h : sub (.execute first) machine = .ok .normal after) (rest : List Stmt) :
    Asks sub (.executeAll (first :: rest)) machine (.executeAll rest) after := by
  refine asks_of_interrupt fun other interrupt hsame hinner => ⟨after, ?_⟩
  have hfirst : other (.execute first) machine = .ok .normal after := by
    rw [hsame _ _ (by simp), h]
  simp only [Task.step, executeAll, Bind.bind, EStateM.bind, hfirst, hinner]

theorem expression_asks_value (sub : Runner) (value : Expr) (machine : Machine) :
    Asks sub (.execute (.expression value)) machine (.evaluate value) machine := by
  refine asks_of_interrupt fun other interrupt _ hinner => ⟨machine, ?_⟩
  simp only [Task.step, execute, Bind.bind, EStateM.bind, hinner]

/-- The machine inside a block. -/
def Machine.inBlock (machine : Machine) (body : List Stmt) : Machine :=
  { machine with
    heap := (machine.heap.child machine.environment (some (.block body))).2
    environment := (machine.heap.child machine.environment (some (.block body))).1 }

theorem within_of_error {α : Type} (machine : Machine) {place : EnvironmentId} {action : Action α}
    {interrupt : Interrupt}
    (h : action { machine with environment := place } = .error interrupt after) :
    within place action machine =
      .error interrupt { after with environment := machine.environment } := by
  simp only [within, h]

theorem block_asks_body (sub : Runner) (body : List Stmt) (machine : Machine) :
    Asks sub (.execute (.block body)) machine (.executeAll body) (machine.inBlock body) := by
  refine asks_of_interrupt fun other interrupt _ hinner =>
    ⟨{ machine.inBlock body with environment := machine.environment }, ?_⟩
  let allocated : Machine := { machine with heap := (machine.inBlock body).heap }
  exact within_of_error allocated hinner

/-! ## Every moment of every run -/

/-- At every moment of the run of a program without static errors, on a machine that ran any such
programs before, a use of a name that has a distance goes to the environment that was made for the
scope in which the name was matched, and a use that has none goes to the globals. -/
theorem uses_reach_their_scopes {clock : Nat → Float} {sink : Sink} {nextId last : NodeId}
    {programs : List (List Stmt)} {source : String} {program : List Stmt} {moment : Machine}
    {fuel : Nat} (hfed : Fed clock sink machine nextId programs)
    (haccepted : Accepted source nextId program distances last)
    (hvisits : Visits fuel (.executeAll program) (machine.learn distances) (.evaluate e) moment)
    (huse : e.use? = some u) :
    ∃ place : Place, ⟨place, .use u⟩ ∈ programsSites (programs ++ [program]) ∧
      Realises moment.heap place.scopes moment.environment ∧
      moment.distances[u.node]? = place.matched? u ∧
      match moment.distances[u.node]? with
      | some distance => ∃ target, GoesToScope place e u moment distance target
      | none => GoesToGlobals e u moment := by
  have hinformed := hfed.informed
  have hlearned := hinformed.learn haccepted.checked
  have hknown : programsSites programs ++ programSites program =
      programsSites (programs ++ [program]) := by
    rw [programsSites, programsSites, List.flatMap_append, List.flatMap_singleton]
  obtain ⟨place, hstands, hbelongs⟩ := (congruence_stepwise _ _).visits_before
    (congruence_outOfFuel _ _) hvisits (hinformed.begins haccepted.checked)
  rw [hknown] at hlearned hstands hbelongs
  have hmem : ⟨place, .use u⟩ ∈ programsSites (programs ++ [program]) :=
    hbelongs.known (List.mem_map_of_mem (Expr.use?_mem huse))
  have hmatched : moment.distances[u.node]? = place.matched? u := by
    rw [hstands.distances]
    exact hlearned.matched place u hmem
  refine ⟨place, hmem, hstands.scopes, hmatched, ?_⟩
  cases hdistance : moment.distances[u.node]? with
  | some distance =>
      exact goesToScope_of_matched hstands hbelongs huse (hlearned.lawful _ hmem _)
        (hmatched.symm.trans hdistance) hdistance
  | none => exact goesToGlobals_of_unmatched hstands hbelongs huse hdistance

/-- A use in a block that declares its variable. -/
def blockRead : Expr := .var 0 ⟨.identifier, "a", 1⟩

/-- The block around it. -/
def blockBody : List Stmt := [.var ⟨.identifier, "a", 1⟩ none, .expression blockRead]

/-- A new machine that runs the block, inside the block. -/
def blockStart : Machine :=
  ((Machine.start (fun _ => 0) .unlimited).learn (Scope.resolve [.block blockBody]).1).inBlock
    blockBody

/-- The machine when it comes to the use. -/
def blockMoment : Machine :=
  { blockStart with heap := blockStart.heap.define blockStart.environment "a" .nil }

theorem uses_reach_their_scopes_block :
    Accepted "\x7bvar a; a;\x7d" 0 [.block blockBody] (Scope.resolve [.block blockBody]).1 1 ∧
      ∃ place : Place,
        ⟨place, .use ⟨.var, ⟨.identifier, "a", 1⟩, 0⟩⟩ ∈ programsSites [[.block blockBody]] ∧
        Realises blockMoment.heap place.scopes blockMoment.environment ∧
        blockMoment.distances[0]? = place.matched? ⟨.var, ⟨.identifier, "a", 1⟩, 0⟩ ∧
        match blockMoment.distances[0]? with
        | some distance => ∃ target,
            GoesToScope place blockRead ⟨.var, ⟨.identifier, "a", 1⟩, 0⟩ blockMoment distance target
        | none => GoesToGlobals blockRead ⟨.var, ⟨.identifier, "a", 1⟩, 0⟩ blockMoment := by
  have haccepted : Accepted "\x7bvar a; a;\x7d" 0 [.block blockBody]
      (Scope.resolve [.block blockBody]).1 1 := ⟨by rfl, by rfl, by rfl⟩
  have hdeclared : Task.run 3 (.execute (.var ⟨.identifier, "a", 1⟩ none)) blockStart =
      .ok .normal blockMoment := by rfl
  have hvisits : Visits 6 (.executeAll [.block blockBody])
      ((Machine.start (fun _ => 0) .unlimited).learn (Scope.resolve [.block blockBody]).1)
      (.evaluate blockRead) blockMoment :=
    .inside (executeAll_asks_first _ _ _ _) <| .inside (block_asks_body _ _ _) <|
      .inside (executeAll_asks_rest hdeclared _) <| .inside (executeAll_asks_first _ _ _ _) <|
        .inside (expression_asks_value _ _ _) .here
  exact ⟨haccepted, uses_reach_their_scopes .start haccepted hvisits rfl⟩

end Run

end Lox
