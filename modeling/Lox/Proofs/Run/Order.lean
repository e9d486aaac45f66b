import Lox.Proofs.Run.Call
import Lox.Proofs.Run.Operators

/-!
# Declarations are executed in order

A declaration that was read from tokens is an element of a program, a block or the body of a
function. So a run comes to it only after the elements before it have ended normally, and in the
environment that was made for the scope around it.
-/

namespace Lox

namespace Run

open Scope (Distances Place)

variable {property : Token → Prop}

/-! ## Elements of lists -/

/-- The statements are executed one after the other and all end normally. So much fuel is left. -/
inductive InOrder : (fuel : Nat) → List Stmt → Machine → (left : Nat) → Machine → Prop where
  | nil {fuel : Nat} {machine : Machine} : InOrder fuel [] machine fuel machine
  | cons {fuel left : Nat} {s : Stmt} {rest : List Stmt} {machine after last : Machine} :
      Task.run fuel (.execute s) machine = .ok .normal after → InOrder fuel rest after left last →
        InOrder (fuel + 1) (s :: rest) machine left last

theorem InOrder.environment {fuel left : Nat} {statements : List Stmt} {machine last : Machine}
    (h : InOrder fuel statements machine left last) : last.environment = machine.environment := by
  induction h with
  | nil => rfl
  | cons hend _ ih => exact ih.trans (environment_of_ok hend)

theorem InOrder.grows {fuel left : Nat} {statements : List Stmt} {machine last : Machine}
    (h : InOrder fuel statements machine left last) : machine.heap.Grows last.heap := by
  induction h with
  | nil => exact .refl _
  | @cons fuel left s rest machine after last hend _ ih =>
      have hevolves := (begins_any fuel (.execute s) machine).evolves
      rw [hend] at hevolves
      exact hevolves.heap.grows.trans ih

/-- The task has the whole list of statements of a region executed: a block its body, a call that of
its callee. -/
inductive Opens : Task → List Stmt → Region → Prop where
  | block {body : List Stmt} : Opens (.execute (.block body)) body (.block body)
  | call {id : NodeId} {callee : Expr} {paren : Token} {arguments : List Expr} {body : List Stmt}
      {declaration : FunctionDecl} (hbody : body = declaration.body) :
        Opens (.evaluate (.call id callee paren arguments)) body (.function declaration)

/-- The run of a task comes to the beginning of a list of statements: the list is the task itself, or
something that the run comes to has it executed as the whole list of a region, in an environment that
was made for the region. -/
inductive BeginsList (fuel : Nat) (task : Task) (machine : Machine) :
    (whole : Nat) → List Stmt → Option Region → Machine → Prop where
  | here {statements : List Stmt} (htask : task = .executeAll statements) :
      BeginsList fuel task machine fuel statements none machine
  | inside {whole : Nat} {statements : List Stmt} {region : Region} {outer : Task}
      {around start : Machine} :
      Comes fuel task machine (whole + 1) outer around → Opens outer statements region →
        Asks (Task.run whole) outer around (.executeAll statements) start →
          (start.heap.environment start.environment).region = some region →
            BeginsList fuel task machine whole statements (some region) start

/-- The statement is an element of a list that the run comes to, those before it in the list have ended
normally, and the environment is the one in which the list began, made for the region of the list. -/
structure ExecutedInOrder (fuel : Nat) (task : Task) (machine : Machine) (left : Nat) (s : Stmt)
    (moment : Machine) (earlier later : List Stmt) (whole : Nat) (region : Option Region)
    (start : Machine) : Prop where
  list : BeginsList fuel task machine whole (earlier ++ s :: later) region start
  order : InOrder whole earlier start (left + 1) moment
  environment : moment.environment = start.environment
  region : ∀ around, region = some around →
    (moment.heap.environment moment.environment).region = some around

/-! ## What asks for lists and their elements -/

section

variable {sub : Runner} {machine start : Machine} {inner task : Task}

theorem executeAll_of_asks {statements : List Stmt}
    (h : Asks sub (.executeAll statements) machine inner start) :
    ∃ s rest, statements = s :: rest ∧ ((inner = .execute s ∧ start = machine) ∨
      (inner = .executeAll rest ∧ sub (.execute s) machine = .ok .normal start)) := by
  cases statements with
  | nil => exact (Depends.none h).elim
  | cons s rest =>
      refine ⟨s, rest, rfl, ?_⟩
      obtain hfirst | ⟨flow, after, hend, hrest⟩ := Depends.bind h
      · cases hfirst.ask
        exact .inl ⟨rfl, rfl⟩
      · cases flow with
        | normal =>
            cases Depends.ask hrest
            exact .inr ⟨rfl, hend⟩
        | returned value => exact (Depends.none hrest).elim

/-- A list of statements is what is left of a longer one, or the body of a block. -/
theorem of_executeAll_mem_parts {statements : List Stmt} (h : .executeAll statements ∈ task.parts) :
    (∃ first, task = .executeAll (first :: statements)) ∨ task = .execute (.block statements) := by
  cases task with
  | evaluate e => cases e <;> simp [Task.parts, expressionParts] at h
  | evaluateAll es => cases es <;> simp [Task.parts] at h
  | execute s =>
      cases s with
      | block body =>
          obtain rfl : statements = body := by simpa [Task.parts, statementParts] using h
          exact .inr rfl
      | _ => simp [Task.parts, statementParts] at h
  | executeAll all =>
      cases all with
      | nil => simp [Task.parts] at h
      | cons first rest =>
          obtain rfl : statements = rest := by simpa [Task.parts] using h
          exact .inl ⟨first, rfl⟩

theorem start_of_block_asks {body : List Stmt}
    (h : Asks sub (.execute (.block body)) machine inner start) :
    start = machine.inBlock body := by
  obtain hhere | ⟨outer, _, hhere, hrest⟩ := Depends.bind h
  · exact hhere.none.elim
  cases hhere
  obtain hopened | ⟨place, _, hopened, hrest⟩ := hrest.bind
  · exact hopened.none.elim
  cases hopened
  cases hrest.within.ask
  rfl

theorem region_inBlock (machine : Machine) (body : List Stmt) :
    ((machine.inBlock body).heap.environment (machine.inBlock body).environment).region =
      some (.block body) := by
  rw [Machine.inBlock, Heap.environment_child]
  exact congrArg Environment.region (if_pos rfl)

/-- A declaration is no branch and no body of a loop. -/
theorem of_declaration_mem_parts (htask : task.Shaped property) {s : Stmt}
    (hs : s.isDeclaration = true) (h : .execute s ∈ task.parts) :
    ∃ rest, task = .executeAll (s :: rest) := by
  cases task with
  | evaluate e => cases e <;> simp [Task.parts, expressionParts] at h
  | evaluateAll es => cases es <;> simp [Task.parts] at h
  | execute outer =>
      cases outer with
      | ifThen condition thenBranch =>
          obtain rfl : s = thenBranch := by simpa [Task.parts, statementParts] using h
          cases hs.symm.trans htask.2.1
      | ifElse condition thenBranch elseBranch =>
          obtain rfl | rfl : s = thenBranch ∨ s = elseBranch := by
            simpa [Task.parts, statementParts] using h
          · cases hs.symm.trans htask.2.1.1
          · cases hs.symm.trans htask.2.2.1
      | while_ condition body =>
          obtain rfl | rfl : s = body ∨ s = .while_ condition body := by
            simpa [Task.parts, statementParts] using h
          · cases hs.symm.trans htask.2.1
          · cases hs
      | _ => simp [Task.parts, statementParts] at h
  | executeAll all =>
      cases all with
      | nil => simp [Task.parts] at h
      | cons first rest =>
          obtain rfl : s = first := by simpa [Task.parts] using h
          exact ⟨rest, rfl⟩

end

theorem BeginsList.executed {fuel left whole : Nat} {task : Task} {machine start moment : Machine}
    {s : Stmt} {earlier later : List Stmt} {region : Option Region}
    (hlist : BeginsList fuel task machine whole (earlier ++ s :: later) region start)
    (horder : InOrder whole earlier start (left + 1) moment) :
    ExecutedInOrder fuel task machine left s moment earlier later whole region start := by
  refine ⟨hlist, horder, horder.environment, ?_⟩
  rintro around rfl
  cases hlist with
  | inside _ _ _ hregion =>
      rw [horder.environment, horder.grows.region _ (Heap.lt_size_of_region hregion), hregion]

/-- Well-shaped code comes to a declaration in the order of its list, unless it is one itself. -/
theorem Comes.inOrder {fuel left : Nat} {task : Task} {machine moment : Machine} {s : Stmt}
    (hcomes : Comes fuel task machine left (.execute s) moment)
    (hbegins : (History.all (.shaped property)).Begins fuel task machine)
    (hs : s.isDeclaration = true) :
    (task = .execute s ∧ machine = moment ∧ fuel = left) ∨
      ∃ earlier later whole region start,
        ExecutedInOrder fuel task machine left s moment earlier later whole region start := by
  generalize hlast : Task.execute s = last at hcomes
  induction hcomes with
  | here => exact .inl ⟨rfl, rfl, rfl⟩
  | @inside fuel left task inner last machine start moment hasks hrest ih =>
      subst hlast
      obtain ⟨hpermits, hheap, -⟩ := hbegins.asked hasks
      refine .inr ?_
      obtain ⟨rfl, rfl, rfl⟩ | ⟨earlier, later, whole, region, first, hlist, horder, -, -⟩ :=
        ih (hbegins.inside hasks hpermits hheap) rfl
      · obtain ⟨hpart, -⟩ | ⟨hcalls, -⟩ := hpermits.depth
        · obtain ⟨rest, rfl⟩ := of_declaration_mem_parts hbegins.code hs hpart
          obtain ⟨_, _, hlist, ⟨-, rfl⟩ | ⟨hrest, -⟩⟩ := executeAll_of_asks hasks
          · exact ⟨[], rest, _, _, _, BeginsList.executed (.here rfl) .nil⟩
          · cases hrest
        · cases hcalls
      · cases hlist with
        | inside hcomes hopens hopened hregion =>
            exact ⟨earlier, later, _, _, _,
              BeginsList.executed (.inside (.inside hasks hcomes) hopens hopened hregion) horder⟩
        | here hinner =>
            subst hinner
            obtain ⟨hpart, -⟩ | ⟨hcalls, -⟩ := hpermits.depth
            · obtain ⟨before, rfl⟩ | rfl := of_executeAll_mem_parts hpart
              · obtain ⟨_, _, hlist, ⟨hfirst, -⟩ | ⟨-, hend⟩⟩ := executeAll_of_asks hasks
                · cases hfirst
                · cases hlist
                  exact ⟨before :: earlier, later, _, _, _,
                    BeginsList.executed (.here rfl) (.cons hend horder)⟩
              · obtain rfl := start_of_block_asks hasks
                exact ⟨earlier, later, _, _, _, BeginsList.executed
                  (.inside .here .block hasks (region_inBlock machine _)) horder⟩
            · cases hcalls
              obtain ⟨closure, answer, henters, hbody⟩ := enters_of_asks hasks
              exact ⟨earlier, later, _, _, _, BeginsList.executed
                (.inside .here (.call hbody) hasks henters.region) horder⟩

/-! ## The scope of a declaration -/

/-- The declaration is executed in the environments that were made for the scopes around its place in
the text, and if it ends with a result, it ends normally, with its name declared there. -/
structure DeclaredAt (known : List Occurrence) (place : Place) (s : Stmt) (moment : Machine) :
    Prop where
  site : ∃ name, s.declares = [name.lexeme] ∧ ⟨place, .declaration name⟩ ∈ known
  scopes : Realises moment.heap place.scopes moment.environment
  normal : ∀ fuel flow after, Task.run fuel (.execute s) moment = .ok flow after →
    flow = .normal ∧ after.environment = moment.environment ∧
      Realises after.heap (place.after s).scopes moment.environment

section

variable {known : List Occurrence} {distances : Distances} {place : Place} {moment : Machine}
  {s : Stmt}

theorem declaration_site (place : Place) (hs : s.isDeclaration = true) :
    ∃ name, s.declares = [name.lexeme] ∧ ⟨place, .declaration name⟩ ∈ s.sites place := by
  cases s with
  | var name initializer => exact ⟨name, rfl, List.mem_cons_self⟩
  | function declaration => exact ⟨declaration.name, rfl, List.mem_cons_self⟩
  | class_ name superclass methods => exact ⟨name, rfl, List.mem_cons_self⟩
  | _ => cases hs

theorem returns_of_isDeclaration (hs : s.isDeclaration = true) : s.returns = [] := by
  cases s <;> first | rfl | cases hs

theorem Stands.declaredAt (hstands : Stands known distances place moment)
    (hbelongs : (Task.execute s).Belongs known place) (hs : s.isDeclaration = true) :
    DeclaredAt known place s moment := by
  obtain ⟨name, hname, hsite⟩ := declaration_site place hs
  refine ⟨⟨name, hname, hbelongs.known hsite⟩, hstands.scopes, fun fuel flow after hend => ?_⟩
  have hmeets := (congruence_stepwise known distances).run_kept (congruence_outOfFuel _ _) fuel
    place (.execute s) moment ⟨hstands, hbelongs⟩
  change Outcome.Meets _ _ _ (Task.run fuel (.execute s) moment) at hmeets
  rw [hend] at hmeets
  obtain ⟨hkept, hleaves⟩ := hmeets
  cases flow with
  | normal =>
      refine ⟨rfl, hkept.environment, ?_⟩
      rw [← hkept.environment]
      exact hleaves
  | returned value =>
      exact (not_gives_return (.execute s) (returns_of_isDeclaration hs) (.execute hend)).elim

end

/-! ## Machines that run what was read -/

/-- A machine that has run only what was read from tokens with a property, whatever errors there
were and whatever distances it has learned: programs, single statements of programs and single
expressions. The sites in all that it has run are known. -/
inductive Hosted (property : Token → Prop) (clock : Nat → Float) (sink : Sink) :
    Machine → List Occurrence → Prop where
  | start : Hosted property clock sink (.start clock sink) []
  | interpret {machine : Machine} {known : List Occurrence} {tokens : List Token}
      (htokens : ∀ token ∈ tokens, property token) (nextId : NodeId) (distances : Distances)
      (fuel : Nat) : Hosted property clock sink machine known →
        Hosted property clock sink
          (Outcome.machine (Run.interpret fuel (Grammar.parse tokens nextId).statements distances
            machine))
          (known ++ programSites (Grammar.parse tokens nextId).statements)
  | statement {machine : Machine} {known : List Occurrence} {tokens : List Token}
      (htokens : ∀ token ∈ tokens, property token) {nextId : NodeId} {above below : List Stmt}
      {s : Stmt} (hsplit : (Grammar.parse tokens nextId).statements = above ++ s :: below)
      (fuel : Nat) : Hosted property clock sink machine known →
        Hosted property clock sink (Outcome.machine (Task.run fuel (.execute s) machine))
          (known ++ s.sites (Place.top.afterAll above))
  | expression {machine : Machine} {known : List Occurrence} {tokens : List Token}
      (htokens : ∀ token ∈ tokens, property token) {nextId : NodeId} {e : Expr}
      (hread : (Grammar.readExpression (.standard tokens) (.start tokens nextId)).1 = .ok e)
      (fuel : Nat) : Hosted property clock sink machine known →
        Hosted property clock sink (Outcome.machine (Task.run fuel (.evaluate e) machine))
          (known ++ e.sites .top)
  | restart {machine : Machine} {known : List Occurrence} : Hosted property clock sink machine known →
      Hosted property clock sink { machine with output := .start } known

/-- Well-shaped code leaves functions that are well-shaped. -/
theorem sound_run (fuel : Nat) (task : Task) (machine : Machine)
    (hsound : machine.heap.Sound (History.all (.shaped property)).rules)
    (htask : task.Shaped property) :
    (Outcome.machine (Task.run fuel task machine)).heap.Sound
      (History.all (.shaped property)).rules :=
  have hbegins : (History.all (.shaped property)).Begins fuel task machine :=
    ⟨True.intro, htask, hsound⟩
  hsound.changes hbegins.evolves.heap

/-- A task at the top level, with any distances, keeps scopes and environments together. -/
theorem congruent_run {machine : Machine} {known : List Occurrence}
    (hcongruent : machine.heap.Congruent known) (henvironment : machine.environment = Heap.globals)
    (fuel : Nat) (distances : Distances) (task : Task) (place : Place) (hscopes : place.scopes = [])
    (hformed : task.Formed) (hfits : task.Fits place) :
    (Outcome.machine (Task.run fuel task { machine with distances := distances })).heap.Congruent
      (known ++ task.sites place) := by
  have hstands : Stands (known ++ task.sites place) distances place
      { machine with distances := distances } := by
    refine ⟨hcongruent.widen (List.subset_append_left _ _), rfl, ?_⟩
    rw [hscopes]
    exact henvironment
  exact (run_kept fuel hstands ⟨List.subset_append_right _ _, hformed, hfits⟩).heap

namespace Hosted

variable {property' : Token → Prop} {clock : Nat → Float} {sink : Sink} {machine : Machine}
  {known : List Occurrence}

theorem mono (h : Hosted property clock sink machine known)
    (hproperty : ∀ token, property token → property' token) :
    Hosted property' clock sink machine known := by
  induction h with
  | start => exact .start
  | interpret htokens nextId distances fuel _ ih =>
      exact .interpret (fun token hmem => hproperty token (htokens token hmem)) nextId distances
        fuel ih
  | statement htokens hsplit fuel _ ih =>
      exact .statement (fun token hmem => hproperty token (htokens token hmem)) hsplit fuel ih
  | expression htokens hread fuel _ ih =>
      exact .expression (fun token hmem => hproperty token (htokens token hmem)) hread fuel ih
  | restart _ ih => exact .restart ih

theorem environment (h : Hosted property clock sink machine known) :
    machine.environment = Heap.globals := by
  induction h with
  | start => rfl
  | @interpret machine known tokens htokens nextId distances fuel _ ih =>
      obtain ⟨output, hend⟩ := machine_interpret fuel (Grammar.parse tokens nextId).statements
        distances machine
      rw [hend]
      exact (run_environment _ _ _).trans ih
  | statement _ _ _ _ ih => exact (run_environment _ _ _).trans ih
  | expression _ _ _ _ ih => exact (run_environment _ _ _).trans ih
  | restart _ ih => exact ih

/-- All functions of the machine are well-shaped. -/
theorem sound (h : Hosted property clock sink machine known) :
    machine.heap.Sound (History.all (.shaped property)).rules := by
  induction h with
  | start => exact .fresh (Code.shaped property).empty
  | @interpret machine known tokens htokens nextId distances fuel _ ih =>
      obtain ⟨output, hend⟩ := machine_interpret fuel (Grammar.parse tokens nextId).statements
        distances machine
      rw [hend]
      exact sound_run fuel (.executeAll _) (machine.learn distances) ih
        (Grammar.parse_formed property tokens nextId htokens)
  | @statement machine known tokens htokens nextId above below s hsplit fuel _ ih =>
      have hformed := Grammar.parse_formed property tokens nextId htokens
      rw [hsplit, Stmt.formedAll_append] at hformed
      exact sound_run fuel (.execute _) _ ih hformed.2.1
  | expression htokens hread fuel _ ih =>
      exact sound_run fuel (.evaluate _) _ ih
        (Grammar.readExpression_formed property _ _ htokens hread)
  | restart _ ih => exact ih

end Hosted

theorem idle_afterAll {place : Place} (hscopes : place.scopes = [])
    (hidle : place.initializing = none) (statements : List Stmt) :
    (place.afterAll statements).scopes = [] ∧ (place.afterAll statements).initializing = none := by
  induction statements generalizing place with
  | nil => exact ⟨hscopes, hidle⟩
  | cons s rest ih =>
      refine ih ?_ hidle
      change Place.declareIn s.declares place.scopes = []
      rw [hscopes]
      rfl

/-- The environments of all functions of the machine were made for the scopes around them. -/
theorem Hosted.congruent {clock : Nat → Float} {sink : Sink} {machine : Machine}
    {known : List Occurrence} (h : Hosted Token.Spelled clock sink machine known) :
    machine.heap.Congruent known := by
  induction h with
  | start => exact .fresh []
  | @interpret machine known tokens htokens nextId distances fuel hhosted ih =>
      obtain ⟨output, hend⟩ := machine_interpret fuel (Grammar.parse tokens nextId).statements
        distances machine
      rw [hend]
      exact congruent_run ih hhosted.environment fuel _ (.executeAll _) .top rfl
        (Grammar.parse_formed Token.Spelled tokens nextId htokens) rfl
  | @statement machine known tokens htokens nextId above below s hsplit fuel hhosted ih =>
      have hformed := Grammar.parse_formed Token.Spelled tokens nextId htokens
      rw [hsplit, Stmt.formedAll_append] at hformed
      have htop : Place.top.scopes = [] := rfl
      obtain ⟨hscopes, hidle⟩ := idle_afterAll htop rfl above
      exact congruent_run ih hhosted.environment fuel machine.distances (.execute s) _ hscopes
        hformed.2.1 hidle
  | @expression machine known tokens htokens nextId e hread fuel hhosted ih =>
      refine congruent_run ih hhosted.environment fuel machine.distances (.evaluate e) .top rfl
        (Grammar.readExpression_formed Token.Spelled tokens nextId htokens hread) ?_
      intro name hname
      cases hname
  | restart _ ih => exact ih

theorem flush_ne_fault {machine after : Machine} {error : RuntimeError}
    (h : flush machine = .error (.fault error) after) : False := by
  rw [flush, settle] at h
  split at h <;> cases h

/-- Whatever errors were noted, everything that is read from tokens is well-shaped. On a machine that
has run only what was read, in any order and with any distances, nothing well-shaped ends with an
error about an operator that the language does not have. A run comes to a declaration only as an
element of a list of statements, after the elements before it have ended normally, and in the
environment that was made for the list. If the tokens are spelled as their kinds say, the environments
from there outwards are those of the scopes around the declaration, and it ends normally with its name
declared there. -/
theorem read_trees_run_in_shape {clock : Nat → Float} {sink : Sink} {machine : Machine}
    {known : List Occurrence} {tokens : List Token}
    (hhosted : Hosted property clock sink machine known)
    (htokens : ∀ token ∈ tokens, property token) (nextId : NodeId) (distances : Distances)
    (fuel : Nat) :
    Stmt.FormedAll property (Grammar.parse tokens nextId).statements ∧
    (∀ e, (Grammar.readExpression (.standard tokens) (.start tokens nextId)).1 = .ok e →
      e.Formed property) ∧
    (∀ task error after, task.Shaped property →
      Task.run fuel task machine = .error (.fault error) after →
        error.fault.message ≠ "Invalid unary operator." ∧
          error.fault.message ≠ "Invalid binary operator.") ∧
    (∀ error after, interpret fuel (Grammar.parse tokens nextId).statements distances machine =
        .error (.fault error) after →
      error.fault.message ≠ "Invalid unary operator." ∧
        error.fault.message ≠ "Invalid binary operator.") ∧
    ∀ left s moment, s.isDeclaration = true →
      Comes fuel (.executeAll (Grammar.parse tokens nextId).statements) (machine.learn distances)
        left (.execute s) moment →
      (∃ earlier later whole region start,
          ExecutedInOrder fuel (.executeAll (Grammar.parse tokens nextId).statements)
            (machine.learn distances) left s moment earlier later whole region start) ∧
        ((∀ token, property token → token.Spelled) → ∃ place,
          DeclaredAt (known ++ programSites (Grammar.parse tokens nextId).statements) place s
            moment) := by
  have hformed := Grammar.parse_formed property tokens nextId htokens
  have hbegins : (History.all (.shaped property)).Begins fuel
      (.executeAll (Grammar.parse tokens nextId).statements) (machine.learn distances) :=
    ⟨True.intro, hformed, hhosted.sound⟩
  refine ⟨hformed, fun e => Grammar.readExpression_formed property tokens nextId htokens,
    fun task error after htask hend => ?_, fun error after hend => ?_,
    fun left s moment hs hcomes => ⟨?_, fun hspelled => ?_⟩⟩
  · exact RuntimeFault.message_ne (run_knows ⟨True.intro, htask, hhosted.sound⟩ hend)
  · rw [interpret_eq] at hend
    cases hrun : Task.run fuel (.executeAll (Grammar.parse tokens nextId).statements)
        (machine.learn distances) with
    | ok flow last =>
        rw [hrun] at hend
        exact (flush_ne_fault hend).elim
    | error interrupt last =>
        rw [hrun] at hend
        cases hend
        exact RuntimeFault.message_ne (run_knows hbegins hrun)
  · obtain ⟨htask, -⟩ | horder := hcomes.inOrder hbegins hs
    · cases htask
    · exact horder
  · have hhosted' := hhosted.mono hspelled
    have hstands : Stands (known ++ programSites (Grammar.parse tokens nextId).statements)
        (machine.learn distances).distances .top (machine.learn distances) :=
      ⟨hhosted'.congruent.widen (List.subset_append_left _ _), rfl, hhosted.environment⟩
    have hbelongs : (Task.executeAll (Grammar.parse tokens nextId).statements).Belongs
        (known ++ programSites (Grammar.parse tokens nextId).statements) .top :=
      ⟨List.subset_append_right _ _, Grammar.parse_formed Token.Spelled tokens nextId
        fun token hmem => hspelled token (htokens token hmem), rfl⟩
    obtain ⟨place, hstands', hbelongs'⟩ := (congruence_stepwise _ _).visits_before
      (congruence_outOfFuel _ _) hcomes.visits ⟨hstands, hbelongs⟩
    exact ⟨place, hstands'.declaredAt hbelongs' hs⟩

theorem read_trees_run_in_shape_block :
    (∀ token ∈ tokens "\x7bvar a; a;\x7d", token.Spelled) ∧
      (∃ earlier later whole region start, ExecutedInOrder 6 (.executeAll [.block blockBody])
        ((Machine.start (fun _ => 0) .unlimited).learn (Scope.resolve [.block blockBody]).1) 3
        (.var ⟨.identifier, "a", 1⟩ none) blockStart earlier later whole region start) ∧
      ∃ place, DeclaredAt (programSites [.block blockBody]) place (.var ⟨.identifier, "a", 1⟩ none)
        blockStart := by
  have htokens : ∀ token ∈ tokens "\x7bvar a; a;\x7d", token.Spelled :=
    fun _ => spelled_of_mem_tokens
  have hparse : (Grammar.parse (tokens "\x7bvar a; a;\x7d") 0).statements = [.block blockBody] := by
    rfl
  have hhosted : Hosted Token.Spelled (fun _ => 0) .unlimited
      (.start (fun _ => 0) .unlimited) [] := .start
  obtain ⟨-, -, -, -, hrun⟩ := read_trees_run_in_shape hhosted htokens 0
    (Scope.resolve [.block blockBody]).1 6
  rw [hparse] at hrun
  obtain ⟨horder, hscope⟩ := hrun 3 (.var ⟨.identifier, "a", 1⟩ none) blockStart rfl <|
    .inside (executeAll_asks_first _ _ _ _) <| .inside (block_asks_body _ _ _) <|
      .inside (executeAll_asks_first _ _ _ _) .here
  exact ⟨htokens, horder, hscope fun _ => id⟩

end Run

end Lox
