import Lox.Proofs.Run.Control
import Lox.Proofs.Run.Lookup

/-!
# Returning

A `return` ends the statements that it is in, up to the body of its function, and nothing in them is
done after it. A program without static errors has no `return` outside its functions, so that it ends
normally if it ends with a result.
-/

namespace Lox

open Scope (Place)

/-! ## The `return` statements of a statement -/

mutual

/-- The `return` statements of a statement, but for those of the functions declared in it. -/
def Stmt.returns : Stmt → List Stmt
  | .expression _ | .print _ | .var _ _ | .function _ | .class_ _ _ _ => []
  | .block body => Stmt.returnsAll body
  | .ifThen _ thenBranch => thenBranch.returns
  | .ifElse _ thenBranch elseBranch => thenBranch.returns ++ elseBranch.returns
  | .while_ _ body => body.returns
  | .return_ keyword value => [.return_ keyword value]

/-- The `return` statements of some statements, but for those of the functions declared in them. -/
def Stmt.returnsAll : List Stmt → List Stmt
  | [] => []
  | s :: rest => s.returns ++ Stmt.returnsAll rest

end

/-- No site breaks the rule that `return` belongs in a function. -/
def NoStrayReturn (occurrences : List Occurrence) : Prop :=
  ∀ occurrence ∈ occurrences, Scope.ScopeFault.returnOutsideFunction.arisesAt occurrence = false

namespace NoStrayReturn

variable {xs ys : List Occurrence}

theorem left (h : NoStrayReturn (xs ++ ys)) : NoStrayReturn xs :=
  fun occurrence hmem => h occurrence (List.mem_append_left _ hmem)

theorem right (h : NoStrayReturn (xs ++ ys)) : NoStrayReturn ys :=
  fun occurrence hmem => h occurrence (List.mem_append_right _ hmem)

end NoStrayReturn

mutual

theorem Stmt.returns_of_sites (s : Stmt) {place : Place} (h : NoStrayReturn (s.sites place))
    (hplace : place.functions = []) : s.returns = [] := by
  cases s with
  | expression value => rfl
  | print value => rfl
  | var name initializer => rfl
  | function declaration => rfl
  | class_ name superclass methods => rfl
  | block body =>
      have hbody : NoStrayReturn (Stmt.sitesAll (place.enter (.block body) []) body) := h
      exact Stmt.returnsAll_of_sites body hbody hplace
  | ifThen condition thenBranch => exact Stmt.returns_of_sites thenBranch h.right hplace
  | ifElse condition thenBranch elseBranch =>
      rw [Stmt.returns, Stmt.returns_of_sites thenBranch h.left.right hplace,
        Stmt.returns_of_sites elseBranch h.right hplace, List.append_nil]
  | while_ condition body => exact Stmt.returns_of_sites body h.right hplace
  | return_ keyword value =>
      have hstray := h _ List.mem_cons_self
      simp [Scope.ScopeFault.arisesAt, hplace] at hstray

theorem Stmt.returnsAll_of_sites (statements : List Stmt) {place : Place}
    (h : NoStrayReturn (Stmt.sitesAll place statements)) (hplace : place.functions = []) :
    Stmt.returnsAll statements = [] := by
  cases statements with
  | nil => rfl
  | cons s rest =>
      rw [Stmt.returnsAll, Stmt.returns_of_sites s h.left hplace,
        Stmt.returnsAll_of_sites rest h.right hplace, List.append_nil]

end

theorem Stmt.returns_of_mem {statements : List Stmt} {s : Stmt}
    (hnone : Stmt.returnsAll statements = []) (hs : s ∈ statements) : s.returns = [] := by
  induction statements with
  | nil => cases hs
  | cons first rest ih =>
      rw [Stmt.returnsAll, List.append_eq_nil_iff] at hnone
      rcases List.mem_cons.mp hs with rfl | hs
      · exact hnone.1
      · exact ih hnone.2 hs

/-- A program that breaks no static rule has no `return` outside its functions. -/
theorem returnsAll_of_resolve {program : List Stmt} {distances : Scope.Distances}
    (h : Scope.resolve program = (distances, [])) : Stmt.returnsAll program = [] :=
  have hlawful := (Scope.lawful_iff_resolve program).mpr ⟨distances, h⟩
  Stmt.returnsAll_of_sites program
    (fun occurrence hmem => hlawful occurrence hmem .returnOutsideFunction) rfl

namespace Run

variable {α β : Type}

/-- The `return` statements of a task. -/
def Task.returns : Task → List Stmt
  | evaluate _ | evaluateAll _ => []
  | execute s => s.returns
  | executeAll statements => Stmt.returnsAll statements

/-- What is inside a task has only such `return` statements as the task has. -/
theorem Task.returns_parts (task : Task) : ∀ inner ∈ task.parts, inner.returns ⊆ task.returns := by
  cases task with
  | evaluate e => cases e <;> simp [parts, expressionParts, returns]
  | evaluateAll es => cases es <;> simp [parts, returns]
  | executeAll statements => cases statements <;> simp [parts, returns, Stmt.returnsAll]
  | execute s => cases s <;> simp [parts, statementParts, returns, Stmt.returns]

/-! ## What a step depends on -/

/-- The action depends on what its runner does with the task `inner` from `start`. -/
def Depends (sub : Runner) (action : Runner → Action α) (machine : Machine) (inner : Task)
    (start : Machine) : Prop :=
  ∃ other : Runner,
    (∀ task machine, (task, machine) ≠ (inner, start) → other task machine = sub task machine) ∧
      action other machine ≠ action sub machine

namespace Depends

variable {sub : Runner} {machine start : Machine} {inner : Task} {first action : Runner → Action α}
  {second : α → Runner → Action β}

theorem bind (h : Depends sub (fun runner => first runner >>= fun a => second a runner) machine
      inner start) :
    Depends sub first machine inner start ∨
      ∃ a after, first sub machine = .ok a after ∧ Depends sub (second a) after inner start := by
  obtain ⟨other, hother, hdiffers⟩ := h
  simp only [bind_eq_andThen] at hdiffers
  by_cases hfirst : first other machine = first sub machine
  · rw [hfirst] at hdiffers
    cases hresult : first sub machine with
    | ok a after =>
        rw [hresult] at hdiffers
        exact .inr ⟨a, after, rfl, other, hother, hdiffers⟩
    | error interrupt after =>
        rw [hresult] at hdiffers
        exact absurd rfl hdiffers
  · exact .inl ⟨other, hother, hfirst⟩

theorem ask {task : Task} (h : Depends sub (fun runner => runner task) machine inner start) :
    (task, machine) = (inner, start) := by
  obtain ⟨other, hother, hdiffers⟩ := h
  apply Classical.byContradiction
  exact fun hne => hdiffers (hother task machine hne)

/-- What does not use its runner depends on nothing. -/
theorem none {action : Action α} (h : Depends sub (fun _ => action) machine inner start) : False := by
  obtain ⟨other, -, hdiffers⟩ := h
  exact hdiffers rfl

theorem ite {condition : Prop} [Decidable condition] {yes no : Runner → Action α}
    (h : Depends sub (fun runner => if condition then yes runner else no runner) machine inner
      start) :
    condition ∧ Depends sub yes machine inner start ∨
      ¬condition ∧ Depends sub no machine inner start := by
  by_cases hcondition : condition
  · simp only [hcondition, if_true] at h
    exact .inl ⟨hcondition, h⟩
  · simp only [hcondition, if_false] at h
    exact .inr ⟨hcondition, h⟩

theorem within {place : EnvironmentId}
    (h : Depends sub (fun runner => Run.within place (action runner)) machine inner start) :
    Depends sub action { machine with environment := place } inner start := by
  obtain ⟨other, hother, hdiffers⟩ := h
  refine ⟨other, hother, fun hsame => hdiffers ?_⟩
  simp only [Run.within, hsame]

theorem nested (h : Depends sub (fun runner => Run.nested (action runner)) machine inner start) :
    Depends sub action { machine with callDepth := machine.callDepth + 1 } inner start := by
  obtain ⟨other, hother, hdiffers⟩ := h
  refine ⟨other, hother, fun hsame => hdiffers ?_⟩
  simp only [Run.nested, hsame]

end Depends

/-! ## One task after the other -/

/-- The tasks that an action has done for it, one after the other: how it ends depends on how these
end alone, and with the first of them that is interrupted it ends. -/
structure InTurn (sub : Runner) (action : Runner → Action α) (machine : Machine)
    (asked : List (Task × Machine)) : Prop where
  settled : ∀ other : Runner, (∀ p ∈ asked, other p.1 p.2 = sub p.1 p.2) →
    action other machine = action sub machine
  interrupted : ∀ (i : Nat) (p : Task × Machine), asked[i]? = some p →
    ∀ (other : Runner) (interrupt : Interrupt) (last : Machine),
      (∀ q ∈ asked.take i, other q.1 q.2 = sub q.1 q.2) → other p.1 p.2 = .error interrupt last →
        ∃ final, action other machine = .error interrupt final

namespace InTurn

variable {sub : Runner} {machine after : Machine} {asked further : List (Task × Machine)}
  {first action : Runner → Action α} {second : α → Runner → Action β} {a : α}

theorem none (action : Action α) : InTurn sub (fun _ => action) machine [] :=
  ⟨fun _ _ => rfl, fun _ _ h => by simp at h⟩

theorem ask (task : Task) : InTurn sub (fun runner => runner task) machine [(task, machine)] := by
  refine ⟨fun other hother => hother _ List.mem_cons_self, ?_⟩
  intro i p hp other interrupt last _ hinner
  cases i with
  | zero =>
      cases hp
      exact ⟨last, hinner⟩
  | succ i => simp at hp

theorem bind (hfirst : InTurn sub first machine asked) (hresult : first sub machine = .ok a after)
    (hsecond : InTurn sub (second a) after further) :
    InTurn sub (fun runner => first runner >>= fun a => second a runner) machine
      (asked ++ further) := by
  refine ⟨fun other hother => ?_, fun i p hp other interrupt last hother hinner => ?_⟩
  · have hsame := hfirst.settled other fun q hq => hother q (List.mem_append_left _ hq)
    rw [bind_eq_andThen, bind_eq_andThen, hsame, hresult]
    exact hsecond.settled other fun q hq => hother q (List.mem_append_right _ hq)
  · rw [bind_eq_andThen]
    by_cases hi : i < asked.length
    · rw [List.getElem?_append_left hi] at hp
      rw [List.take_append_of_le_length (Nat.le_of_lt hi)] at hother
      obtain ⟨final, hend⟩ := hfirst.interrupted i p hp other interrupt last hother hinner
      exact ⟨final, by rw [hend]; rfl⟩
    · have hle := Nat.le_of_not_lt hi
      rw [List.getElem?_append_right hle] at hp
      rw [List.take_append, List.take_of_length_le hle] at hother
      have hsame := hfirst.settled other fun q hq => hother q (List.mem_append_left _ hq)
      rw [hsame, hresult]
      exact hsecond.interrupted _ p hp other interrupt last
        (fun q hq => hother q (List.mem_append_right _ hq)) hinner

theorem ite_pos {condition : Prop} [Decidable condition] {yes no : Runner → Action α}
    (hcondition : condition) (h : InTurn sub yes machine asked) :
    InTurn sub (fun runner => if condition then yes runner else no runner) machine asked := by
  simpa only [hcondition, if_true] using h

theorem ite_neg {condition : Prop} [Decidable condition] {yes no : Runner → Action α}
    (hcondition : ¬condition) (h : InTurn sub no machine asked) :
    InTurn sub (fun runner => if condition then yes runner else no runner) machine asked := by
  simpa only [hcondition, if_false] using h

theorem within {place : EnvironmentId}
    (h : InTurn sub action { machine with environment := place } asked) :
    InTurn sub (fun runner => Run.within place (action runner)) machine asked := by
  refine ⟨fun other hother => ?_, fun i p hp other interrupt last hother hinner => ?_⟩
  · simp only [Run.within, h.settled other hother]
  · obtain ⟨final, hend⟩ := h.interrupted i p hp other interrupt last hother hinner
    exact ⟨_, within_of_error machine hend⟩

end InTurn

/-! ## Handing on -/

/-- From the machine, the task ends in `.returned value`. -/
inductive GivesReturn (sub : Runner) : Task → Machine → Value → Machine → Prop where
  | execute {s : Stmt} {machine after : Machine} {value : Value} :
      sub (.execute s) machine = .ok (.returned value) after →
        GivesReturn sub (.execute s) machine value after
  | executeAll {statements : List Stmt} {machine after : Machine} {value : Value} :
      sub (.executeAll statements) machine = .ok (.returned value) after →
        GivesReturn sub (.executeAll statements) machine value after

/-- After the tasks `before`, of which none returned, a statement has `inner` done from `start`. -/
inductive Hands (sub : Runner) :
    Task → Machine → (before : List (Task × Machine)) → Task → Machine → Prop where
  | first {s : Stmt} {rest : List Stmt} {machine : Machine} :
      Hands sub (.executeAll (s :: rest)) machine [] (.execute s) machine
  | rest {s : Stmt} {rest : List Stmt} {machine after : Machine} :
      sub (.execute s) machine = .ok .normal after →
        Hands sub (.executeAll (s :: rest)) machine [(.execute s, machine)] (.executeAll rest) after
  | block {body : List Stmt} {machine : Machine} :
      Hands sub (.execute (.block body)) machine [] (.executeAll body) (machine.inBlock body)
  | ifThen {condition : Expr} {thenBranch : Stmt} {machine after : Machine} {value : Value} :
      sub (.evaluate condition) machine = .ok value after → value.isTruthy →
        Hands sub (.execute (.ifThen condition thenBranch)) machine [(.evaluate condition, machine)]
          (.execute thenBranch) after
  | thenBranch {condition : Expr} {thenBranch elseBranch : Stmt} {machine after : Machine}
      {value : Value} :
      sub (.evaluate condition) machine = .ok value after → value.isTruthy →
        Hands sub (.execute (.ifElse condition thenBranch elseBranch)) machine
          [(.evaluate condition, machine)] (.execute thenBranch) after
  | elseBranch {condition : Expr} {thenBranch elseBranch : Stmt} {machine after : Machine}
      {value : Value} :
      sub (.evaluate condition) machine = .ok value after → ¬value.isTruthy →
        Hands sub (.execute (.ifElse condition thenBranch elseBranch)) machine
          [(.evaluate condition, machine)] (.execute elseBranch) after
  | turn {condition : Expr} {body : Stmt} {machine after : Machine} {value : Value} :
      sub (.evaluate condition) machine = .ok value after → value.isTruthy →
        Hands sub (.execute (.while_ condition body)) machine [(.evaluate condition, machine)]
          (.execute body) after
  | again {condition : Expr} {body : Stmt} {machine between after : Machine} {value : Value} :
      sub (.evaluate condition) machine = .ok value between → value.isTruthy →
        sub (.execute body) between = .ok .normal after →
          Hands sub (.execute (.while_ condition body)) machine
            [(.evaluate condition, machine), (.execute body, between)]
            (.execute (.while_ condition body)) after

namespace Hands

variable {sub : Runner} {task inner : Task} {machine start final : Machine}
  {before : List (Task × Machine)} {value : Value}

theorem mem_parts (h : Hands sub task machine before inner start) : inner ∈ task.parts := by
  cases h <;> simp [Task.parts, statementParts]

theorem not_returned (h : Hands sub task machine before inner start) :
    ∀ p ∈ before, ∀ value final, ¬GivesReturn sub p.1 p.2 value final := by
  have hvalue (e : Expr) (machine : Machine) (value : Value) (final : Machine) :
      ¬GivesReturn sub (.evaluate e) machine value final := by
    rintro ⟨⟩
  have hnormal {s : Stmt} {machine after : Machine}
      (hend : sub (.execute s) machine = .ok .normal after) (value : Value) (final : Machine) :
      ¬GivesReturn sub (.execute s) machine value final := by
    rintro (hreturned | _)
    cases hend.symm.trans hreturned
  cases h with
  | first | block => simp
  | rest hend => simpa using hnormal hend
  | ifThen | thenBranch | elseBranch | turn => simpa using hvalue _ _
  | again _ _ hend => simpa using ⟨hvalue _ _, hnormal hend⟩

/-- A statement that returns is the last thing that is done. -/
theorem inTurn (h : Hands sub task machine before inner start)
    (hreturned : GivesReturn sub inner start value final) :
    InTurn sub (fun runner => task.step runner) machine (before ++ [(inner, start)]) := by
  cases h with
  | first =>
      cases hreturned with
      | execute hend => exact (InTurn.ask _).bind hend (.none _)
  | rest hend => exact (InTurn.ask _).bind hend (.ask _)
  | block => exact (InTurn.none here).bind rfl ((InTurn.none _).bind rfl (.within (.ask _)))
  | ifThen hend htruthy => exact (InTurn.ask _).bind hend (.ite_pos htruthy (.ask _))
  | thenBranch hend htruthy => exact (InTurn.ask _).bind hend (.ite_pos htruthy (.ask _))
  | elseBranch hend htruthy => exact (InTurn.ask _).bind hend (.ite_neg htruthy (.ask _))
  | turn hend htruthy =>
      cases hreturned with
      | execute hbody =>
          exact (InTurn.ask _).bind hend (.ite_pos htruthy ((InTurn.ask _).bind hbody (.none _)))
  | again hend htruthy hbody =>
      exact (InTurn.ask _).bind hend (.ite_pos htruthy ((InTurn.ask _).bind hbody (.ask _)))

/-- A `return` in a statement of its own is handed on. -/
theorem of_asks (hasks : Asks sub task machine inner start) (hpart : inner ∈ task.parts)
    (hreturned : GivesReturn sub inner start value final) :
    ∃ before, Hands sub task machine before inner start := by
  have hdepends : Depends sub (fun runner => task.step runner) machine inner start := hasks
  have hplain (e : Expr) (machine : Machine) : (Task.evaluate e, machine) ≠ (inner, start) := by
    rintro heq
    cases heq
    cases hreturned
  cases task with
  | evaluate e =>
      cases hreturned <;> cases e <;> simp [Task.parts, expressionParts] at hpart
  | evaluateAll es =>
      cases hreturned <;> cases es <;> simp [Task.parts] at hpart
  | executeAll statements =>
      cases statements with
      | nil => exact hdepends.none.elim
      | cons s rest =>
          obtain hfirst | ⟨flow, after, hend, hrest⟩ := hdepends.bind
          · cases hfirst.ask
            exact ⟨_, .first⟩
          · cases flow with
            | normal =>
                cases Depends.ask hrest
                exact ⟨_, .rest hend⟩
            | returned value => exact hrest.none.elim
  | execute s =>
      cases s with
      | block body =>
          obtain hread | ⟨outer, between, hread, hopen⟩ := hdepends.bind
          · exact hread.none.elim
          · cases hread
            obtain hopened | ⟨place, opened, hopened, hbody⟩ := hopen.bind
            · exact hopened.none.elim
            · cases hopened
              cases hbody.within.ask
              exact ⟨_, .block⟩
      | ifThen condition thenBranch =>
          obtain hcondition | ⟨value, after, hend, hbranch⟩ := hdepends.bind
          · exact absurd hcondition.ask (hplain _ _)
          · obtain ⟨htruthy, hbranch⟩ | ⟨-, hbranch⟩ := hbranch.ite
            · cases hbranch.ask
              exact ⟨_, .ifThen hend htruthy⟩
            · exact hbranch.none.elim
      | ifElse condition thenBranch elseBranch =>
          obtain hcondition | ⟨value, after, hend, hbranch⟩ := hdepends.bind
          · exact absurd hcondition.ask (hplain _ _)
          · obtain ⟨htruthy, hbranch⟩ | ⟨hfalsy, hbranch⟩ := hbranch.ite
            · cases hbranch.ask
              exact ⟨_, .thenBranch hend htruthy⟩
            · cases hbranch.ask
              exact ⟨_, .elseBranch hend hfalsy⟩
      | while_ condition body =>
          obtain hcondition | ⟨value, between, hend, hturn⟩ := hdepends.bind
          · exact absurd hcondition.ask (hplain _ _)
          · obtain ⟨htruthy, hturn⟩ | ⟨-, hturn⟩ := hturn.ite
            · obtain hbody | ⟨flow, after, hbody, hagain⟩ := hturn.bind
              · cases hbody.ask
                exact ⟨_, .turn hend htruthy⟩
              · cases flow with
                | normal =>
                    cases Depends.ask hagain
                    exact ⟨_, .again hend htruthy hbody⟩
                | returned value => exact hagain.none.elim
            · exact hturn.none.elim
      | _ => cases hreturned <;> simp [Task.parts, statementParts] at hpart

end Hands

section

variable {fuel : Nat} {task inner : Task} {machine start after final : Machine}
  {before : List (Task × Machine)} {value : Value}

theorem bind_of_ok {first : Action α} {second : α → Action β} {a : α} {b : β}
    (hfirst : first machine = .ok a after) (hsecond : second a after = .ok b final) :
    (first >>= second) machine = .ok b final := by
  rw [bind_eq_andThen, hfirst]
  exact hsecond

theorem ok_of_bind {first : Action α} {second : α → Action β} {b : β}
    (h : (first >>= second) machine = .ok b final) :
    ∃ a after, first machine = .ok a after ∧ second a after = .ok b final := by
  rw [bind_eq_andThen] at h
  cases hfirst : first machine with
  | ok a after =>
      rw [hfirst] at h
      exact ⟨a, after, rfl, h⟩
  | error interrupt after =>
      rw [hfirst] at h
      cases h

theorem within_of_ok {place : EnvironmentId} {action : Action α} {a : α}
    (h : action { machine with environment := place } = .ok a after) :
    within place action machine = .ok a { after with environment := machine.environment } := by
  simp only [within, h]

theorem ok_of_within {place : EnvironmentId} {action : Action α} {a : α}
    (h : within place action machine = .ok a final) :
    ∃ last, action { machine with environment := place } = .ok a last := by
  cases hend : action { machine with environment := place } with
  | ok b last =>
      rw [within_of_ok hend] at h
      cases h
      exact ⟨last, rfl⟩
  | error interrupt last =>
      rw [within_of_error machine hend] at h
      cases h

theorem run_environment (fuel : Nat) (task : Task) (machine : Machine) :
    (Outcome.machine (Task.run fuel task machine)).environment = machine.environment :=
  congrArg Control.environment (run_control fuel task machine)

theorem environment_of_ok {a : task.Result} (h : Task.run fuel task machine = .ok a after) :
    after.environment = machine.environment := by
  have hsame := run_environment fuel task machine
  rwa [h] at hsame

theorem put_back (h : after.environment = machine.environment) :
    { after with environment := machine.environment } = after := by
  rw [← h]

/-- The statement that hands on ends as the one inside it, in its own environment. -/
theorem Hands.returns (h : Hands (Task.run fuel) task machine before inner start)
    (hreturned : GivesReturn (Task.run fuel) inner start value final) :
    GivesReturn (Task.run (fuel + 1)) task machine value
      { final with environment := machine.environment } := by
  cases h with
  | first =>
      cases hreturned with
      | execute hend =>
          rw [put_back (environment_of_ok hend)]
          exact .executeAll (bind_of_ok hend rfl)
  | rest hfirst =>
      cases hreturned with
      | executeAll hend =>
          rw [put_back ((environment_of_ok hend).trans (environment_of_ok hfirst))]
          exact .executeAll (bind_of_ok hfirst hend)
  | block =>
      cases hreturned with
      | executeAll hend =>
          exact .execute (bind_of_ok rfl (bind_of_ok rfl (within_of_ok hend)))
  | ifThen hcondition htruthy | thenBranch hcondition htruthy =>
      cases hreturned with
      | execute hend =>
          rw [put_back ((environment_of_ok hend).trans (environment_of_ok hcondition))]
          exact .execute (bind_of_ok hcondition (by rw [if_pos htruthy, hend]))
  | elseBranch hcondition hfalsy =>
      cases hreturned with
      | execute hend =>
          rw [put_back ((environment_of_ok hend).trans (environment_of_ok hcondition))]
          exact .execute (bind_of_ok hcondition (by rw [if_neg hfalsy, hend]))
  | turn hcondition htruthy =>
      cases hreturned with
      | execute hend =>
          rw [put_back ((environment_of_ok hend).trans (environment_of_ok hcondition))]
          exact .execute (bind_of_ok hcondition (by rw [if_pos htruthy]; exact bind_of_ok hend rfl))
  | again hcondition htruthy hbody =>
      cases hreturned with
      | execute hend =>
          rw [put_back (((environment_of_ok hend).trans (environment_of_ok hbody)).trans
            (environment_of_ok hcondition))]
          exact .execute (bind_of_ok hcondition (by rw [if_pos htruthy]; exact bind_of_ok hbody hend))

theorem GivesReturn.unique {sub : Runner} {value' : Value} {after' : Machine}
    (h : GivesReturn sub task machine value after) (h' : GivesReturn sub task machine value' after') :
    value' = value ∧ after' = after := by
  cases h with
  | execute hend =>
      cases h' with
      | execute hend' =>
          cases hend.symm.trans hend'
          exact ⟨rfl, rfl⟩
  | executeAll hend =>
      cases h' with
      | executeAll hend' =>
          cases hend.symm.trans hend'
          exact ⟨rfl, rfl⟩

/-- What returns is a `return` statement or has been handed on to. -/
theorem GivesReturn.handed (h : GivesReturn (Task.run (fuel + 1)) task machine value after) :
    (∃ keyword e, task = .execute (.return_ keyword e)) ∨
      ∃ before inner start final, Hands (Task.run fuel) task machine before inner start ∧
        GivesReturn (Task.run fuel) inner start value final := by
  cases h with
  | executeAll hend =>
      next statements =>
      cases statements with
      | nil => cases hend
      | cons s rest =>
          obtain ⟨flow, between, hfirst, hrest⟩ := ok_of_bind hend
          cases flow with
          | normal => exact .inr ⟨_, _, _, _, .rest hfirst, .executeAll hrest⟩
          | returned value =>
              cases hrest
              exact .inr ⟨_, _, _, _, .first, .execute hfirst⟩
  | execute hend =>
      next s =>
      cases s with
      | block body =>
          obtain ⟨outer, _, hread, hopen⟩ := ok_of_bind hend
          cases hread
          obtain ⟨place, _, hopened, hbody⟩ := ok_of_bind hopen
          cases hopened
          obtain ⟨last, hbody⟩ := ok_of_within hbody
          exact .inr ⟨_, _, _, _, .block, .executeAll hbody⟩
      | ifThen condition thenBranch =>
          obtain ⟨value, between, hcondition, hbranch⟩ := ok_of_bind hend
          split at hbranch
          · next htruthy => exact .inr ⟨_, _, _, _, .ifThen hcondition htruthy, .execute hbranch⟩
          · cases hbranch
      | ifElse condition thenBranch elseBranch =>
          obtain ⟨value, between, hcondition, hbranch⟩ := ok_of_bind hend
          split at hbranch
          · next htruthy =>
              exact .inr ⟨_, _, _, _, .thenBranch hcondition htruthy, .execute hbranch⟩
          · next hfalsy =>
              exact .inr ⟨_, _, _, _, .elseBranch hcondition hfalsy, .execute hbranch⟩
      | while_ condition body =>
          obtain ⟨value, between, hcondition, hturn⟩ := ok_of_bind hend
          split at hturn
          · next htruthy =>
              obtain ⟨flow, last, hbody, hagain⟩ := ok_of_bind hturn
              cases flow with
              | normal => exact .inr ⟨_, _, _, _, .again hcondition htruthy hbody, .execute hagain⟩
              | returned value =>
                  cases hagain
                  exact .inr ⟨_, _, _, _, .turn hcondition htruthy, .execute hbody⟩
          · cases hturn
      | return_ keyword e => exact .inl ⟨keyword, e, rfl⟩
      | expression e | class_ name superclass methods =>
          obtain ⟨_, _, -, hnormal⟩ := ok_of_bind hend
          cases hnormal
      | var name e =>
          obtain ⟨_, _, -, hdefine⟩ := ok_of_bind hend
          obtain ⟨_, _, -, hnormal⟩ := ok_of_bind hdefine
          cases hnormal
      | print e =>
          obtain ⟨_, _, -, htext⟩ := ok_of_bind hend
          obtain ⟨_, _, -, hwrite⟩ := ok_of_bind htext
          obtain ⟨_, _, -, hnormal⟩ := ok_of_bind hwrite
          cases hnormal
      | function declaration =>
          obtain ⟨_, _, -, hadd⟩ := ok_of_bind hend
          obtain ⟨_, _, -, hdefine⟩ := ok_of_bind hadd
          obtain ⟨_, _, -, hnormal⟩ := ok_of_bind hdefine
          cases hnormal

end

/-! ## Where a run returns -/

/-- What a run comes to without entering the body of a callee, and how much fuel is left then. -/
inductive Stays : (fuel : Nat) → Task → Machine → (rest : Nat) → Task → Machine → Prop where
  | here {fuel : Nat} {task : Task} {machine : Machine} : Stays fuel task machine fuel task machine
  | inside {fuel rest : Nat} {task inner last : Task} {machine start moment : Machine} :
      Asks (Task.run fuel) task machine inner start → inner ∈ task.parts →
        Stays fuel inner start rest last moment → Stays (fuel + 1) task machine rest last moment

/-- The run of a statement comes to a `return` in it, and nothing in the statement is done after that:
each statement on the way asks for the next one last, after others that did not return. -/
inductive Returns :
    (fuel : Nat) → Task → Machine → (rest : Nat) → Token → Option Expr → Machine → Prop where
  | here {fuel : Nat} {keyword : Token} {e : Option Expr} {machine : Machine} :
      Returns fuel (.execute (.return_ keyword e)) machine fuel keyword e machine
  | inside {fuel rest : Nat} {task inner : Task} {machine start moment : Machine}
      {before : List (Task × Machine)} {keyword : Token} {e : Option Expr} :
      InTurn (Task.run fuel) (fun runner => task.step runner) machine (before ++ [(inner, start)]) →
        inner ∈ task.parts →
          (∀ p ∈ before, ∀ value after, ¬GivesReturn (Task.run fuel) p.1 p.2 value after) →
            Returns fuel inner start rest keyword e moment →
              Returns (fuel + 1) task machine rest keyword e moment

section

variable {fuel rest : Nat} {task : Task} {machine moment after last : Machine} {keyword : Token}
  {e : Option Expr} {value : Value}

theorem Returns.mem_returns (h : Returns fuel task machine rest keyword e moment) :
    .return_ keyword e ∈ task.returns := by
  induction h with
  | here => simp [Task.returns, Stmt.returns]
  | inside _ hpart _ _ ih => exact Task.returns_parts _ _ hpart ih

/-- A run that returns has come to a `return` of its own, at its end. -/
theorem GivesReturn.returns (h : GivesReturn (Task.run fuel) task machine value after) :
    ∃ rest keyword e moment last, Returns fuel task machine rest keyword e moment ∧
      Task.run rest (.execute (.return_ keyword e)) moment = .ok (.returned value) last ∧
        after = { last with environment := machine.environment } := by
  induction fuel generalizing task machine after with
  | zero => rcases h with h | h <;> cases h
  | succ fuel ih =>
      obtain ⟨keyword, e, rfl⟩ | ⟨before, inner, start, final, hhands, hinner⟩ := h.handed
      · cases h with
        | execute hend =>
            exact ⟨fuel + 1, keyword, e, machine, after, .here, hend,
              (put_back (environment_of_ok hend)).symm⟩
      · obtain ⟨rest, keyword, e, moment, last, hreturns, hlast, rfl⟩ := ih hinner
        obtain ⟨-, rfl⟩ := (hhands.returns hinner).unique h
        exact ⟨rest, keyword, e, moment, last,
          .inside (hhands.inTurn hinner) hhands.mem_parts hhands.not_returned hreturns, hlast, rfl⟩

/-- A run that comes to a `return` of its own that gives a value returns that, and is over. -/
theorem Stays.returns
    (h : Stays fuel task machine rest (.execute (.return_ keyword e)) moment)
    (hlast : Task.run rest (.execute (.return_ keyword e)) moment = .ok (.returned value) last) :
    Returns fuel task machine rest keyword e moment ∧
      GivesReturn (Task.run fuel) task machine value
        { last with environment := machine.environment } := by
  generalize hreturn : Task.execute (.return_ keyword e) = task' at h
  induction h with
  | here =>
      subst hreturn
      refine ⟨.here, ?_⟩
      rw [put_back (environment_of_ok hlast)]
      exact .execute hlast
  | inside hasks hpart _ ih =>
      obtain ⟨hreturns, hinner⟩ := ih hlast hreturn
      obtain ⟨before, hhands⟩ := Hands.of_asks hasks hpart hinner
      have hreturned := hhands.returns hinner
      exact ⟨.inside (hhands.inTurn hinner) hpart hhands.not_returned hreturns, hreturned⟩

end

/-! ## Programs without a `return` -/

/-- A task without a `return` of its own does not return. -/
theorem not_gives_return (task : Task) (hnone : task.returns = []) {fuel : Nat}
    {machine after : Machine} {value : Value} : ¬GivesReturn (Task.run fuel) task machine value after := by
  intro h
  obtain ⟨rest, keyword, e, moment, last, hreturns, -, -⟩ := h.returns
  have hmem := hreturns.mem_returns
  rw [hnone] at hmem
  cases hmem

theorem executeAll_normal {fuel : Nat} {program : List Stmt} {machine after : Machine} {flow : Flow}
    (hnone : Stmt.returnsAll program = [])
    (h : Task.run fuel (.executeAll program) machine = .ok flow after) : flow = .normal := by
  cases flow with
  | normal => rfl
  | returned value => exact (not_gives_return (.executeAll program) hnone (.executeAll h)).elim

end Run

end Lox
