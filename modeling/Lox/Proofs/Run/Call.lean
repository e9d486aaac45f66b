import Lox.Proofs.Run.Inheritance
import Lox.Proofs.Run.Origin
import Lox.Proofs.Run.Return

/-!
# What a call gives

A call expression that enters the body of a function absorbs the return of the body: the call gives a
value. Whatever interrupts something inside the body interrupts the call as well.
-/

namespace Lox

/-- What a call gives whose function has returned: the value, or the instance if the function is an
initializer. -/
def Closure.answer (closure : Closure) (value : Value) (heap : Heap) : Value :=
  if closure.isInitializer then (heap.getAt? closure.environment 0 "this").getD .nil else value

namespace Run

variable {α : Type}

/-! ## Calls -/

/-- A call expression has evaluated its callee and its arguments, and nothing prevents the call. -/
structure Calls (sub : Runner) (callee : Expr) (arguments : List Expr) (machine : Machine)
    (callable : Heap.Callable) (values : List Value) (ready : Machine) : Prop where
  evaluated : ∃ value between, sub (.evaluate callee) machine = .ok value between ∧
    sub (.evaluateAll arguments) between = .ok values ready ∧
      ready.heap.callable? value = some callable
  arity : ready.heap.arity callable ≤ values.length
  room : ready.callDepth < maxCallDepth

/-- A call expression enters the body of a function, which is called itself or as the initializer of
a class, with what the call is to give when the body has returned. -/
inductive Enters (sub : Runner) (callee : Expr) (arguments : List Expr) (machine : Machine) :
    Closure → (start : Machine) → (answer : Value → Heap → Value) → Prop where
  | function {values : List Value} {ready : Machine} {closure : Closure} :
      Calls sub callee arguments machine (.closure closure) values ready →
        Enters sub callee arguments machine closure (ready.inCall closure values) closure.answer
  | initializer {values : List Value} {ready : Machine} {id : ClassId} {receiver : InstanceId}
      {added bound : Heap} {method closure : Closure} :
      Calls sub callee arguments machine (.class_ id) values ready →
        ready.heap.addInstance id = (receiver, added) → added.initializer? id = some method →
          added.bindThis method receiver = (closure, bound) →
            Enters sub callee arguments machine closure
              (Machine.inCall { ready with heap := bound } closure values)
              fun _ _ => .instance_ receiver

section

variable {sub : Runner} {id : NodeId} {callee : Expr} {paren : Token} {arguments : List Expr}
  {callable : Heap.Callable} {values : List Value} {body : List Stmt}
  {machine ready start : Machine}

/-- A call expression that asks for the body of a function calls something. -/
theorem calls_of_asks
    (h : Asks sub (.evaluate (.call id callee paren arguments)) machine (.executeAll body) start) :
    ∃ callable values ready, Calls sub callee arguments machine callable values ready ∧
      Depends sub (fun runner => invoke runner callable values)
        { ready with callDepth := ready.callDepth + 1 } (.executeAll body) start := by
  have hdepends : Depends sub (fun runner => evaluateCall runner callee paren arguments) machine
      (.executeAll body) start := h
  obtain hcallee | ⟨value, between, hvalue, hrest⟩ := hdepends.bind
  · cases hcallee.ask
  obtain harguments | ⟨values, ready, hvalues, hrest⟩ := hrest.bind
  · cases harguments.ask
  obtain hread | ⟨_, _, hread, hrest⟩ := hrest.bind
  · exact hread.none.elim
  cases hread
  cases hcallable : ready.heap.callable? value with
  | none =>
      rw [hcallable] at hrest
      exact hrest.none.elim
  | some callable =>
      rw [hcallable] at hrest
      obtain hread | ⟨_, _, hread, hrest⟩ := hrest.bind
      · exact hread.none.elim
      cases hread
      obtain ⟨-, hfew⟩ | ⟨harity, hrest⟩ := hrest.ite
      · exact hfew.none.elim
      obtain hread | ⟨_, _, hread, hrest⟩ := hrest.bind
      · exact hread.none.elim
      cases hread
      obtain ⟨-, hfull⟩ | ⟨hroom, hrest⟩ := hrest.ite
      · exact hfull.none.elim
      exact ⟨callable, values, ready, ⟨⟨value, between, hvalue, hvalues, hcallable⟩,
        Nat.le_of_not_lt harity, Nat.lt_of_not_le hroom⟩, hrest.nested⟩

theorem Depends.callClosure (ready : Machine) {closure : Closure}
    (h : Depends sub (fun runner => callClosure runner closure values)
      { ready with callDepth := ready.callDepth + 1 } (.executeAll body) start) :
    body = closure.declaration.body ∧ start = ready.inCall closure values := by
  obtain hopened | ⟨place, _, hopened, h⟩ := h.bind
  · exact hopened.none.elim
  cases hopened
  obtain hbound | ⟨_, _, hbound, h⟩ := h.bind
  · exact hbound.none.elim
  cases hbound
  obtain hbody | ⟨flow, _, -, h⟩ := h.bind
  · cases hbody.within.ask
    exact ⟨rfl, rfl⟩
  · obtain ⟨-, h⟩ | ⟨-, h⟩ := h.ite
    · exact h.none.elim
    · exact h.none.elim

theorem of_allocate {change : Heap → α × Heap} {a : α} {after : Machine}
    (h : allocate change machine = .ok a after) :
    a = (change machine.heap).1 ∧ after = { machine with heap := (change machine.heap).2 } := by
  cases h
  exact ⟨rfl, rfl⟩

/-- A call expression that asks for the body of a function enters it. -/
theorem enters_of_asks
    (h : Asks sub (.evaluate (.call id callee paren arguments)) machine (.executeAll body) start) :
    ∃ closure answer, Enters sub callee arguments machine closure start answer ∧
      body = closure.declaration.body := by
  obtain ⟨callable, values, ready, hcalls, hdepends⟩ := calls_of_asks h
  cases callable with
  | native native => cases native; exact hdepends.none.elim
  | closure closure =>
      obtain ⟨rfl, rfl⟩ := Depends.callClosure ready hdepends
      exact ⟨closure, closure.answer, .function hcalls, rfl⟩
  | class_ id =>
      obtain hadded | ⟨receiver, _, hadded, hrest⟩ := hdepends.bind
      · exact hadded.none.elim
      obtain ⟨rfl, rfl⟩ := of_allocate hadded
      obtain hread | ⟨_, _, hread, hrest⟩ := hrest.bind
      · exact hread.none.elim
      cases hread
      cases hmethod : (ready.heap.addInstance id).2.initializer? id with
      | none =>
          rw [hmethod] at hrest
          exact hrest.none.elim
      | some method =>
          rw [hmethod] at hrest
          obtain hbound | ⟨closure, _, hbound, hrest⟩ := hrest.bind
          · exact hbound.none.elim
          cases hbound
          obtain hcalled | ⟨_, _, -, hrest⟩ := hrest.bind
          · let bound := ((ready.heap.addInstance id).2.bindThis method (ready.heap.addInstance id).1).2
            obtain ⟨rfl, rfl⟩ := Depends.callClosure { ready with heap := bound } hcalled
            exact ⟨_, _, .initializer hcalls rfl hmethod rfl, rfl⟩
          · exact hrest.none.elim

end

/-! ### The environment of a call -/

theorem grows_bindParameters (place : EnvironmentId) (parameters : List Token)
    (values : List Value) (heap : Heap) :
    heap.Grows (bindParameters place parameters values heap) := by
  have hchanges : Heap.Changes (History.all .any).rules heap
      (bindParameters place parameters values heap) :=
    bindParameters_changes place (fun _ _ => True.intro) values heap
  exact hchanges.grows

theorem Machine.grows_inCall (ready : Machine) (closure : Closure) (values : List Value) :
    ready.heap.Grows (ready.inCall closure values).heap :=
  (Heap.Grows.child ready.heap _ _).trans (grows_bindParameters _ _ values _)

/-- The body of a function is done in an environment that was made for the function. -/
theorem Enters.region {sub : Runner} {callee : Expr} {arguments : List Expr} {machine start : Machine}
    {closure : Closure} {answer : Value → Heap → Value}
    (h : Enters sub callee arguments machine closure start answer) :
    (start.heap.environment start.environment).region = some (.function closure.declaration) := by
  have hcall (ready : Machine) (closure : Closure) (values : List Value) :
      ((ready.inCall closure values).heap.environment
        (ready.inCall closure values).environment).region = some (.function closure.declaration) := by
    let opened := ready.heap.child closure.environment (some (.function closure.declaration))
    have hnew : opened.2.environment opened.1 =
        ⟨.empty, some closure.environment, some (.function closure.declaration)⟩ := by
      rw [Heap.environment_child]
      exact if_pos rfl
    have hopened : (opened.2.environment opened.1).region = some (.function closure.declaration) := by
      rw [hnew]
    have hgrows := grows_bindParameters opened.1 closure.declaration.parameters values opened.2
    rw [← hopened]
    exact hgrows.region opened.1 (Heap.lt_size_of_region hopened)
  cases h with
  | function _ => exact hcall _ _ _
  | initializer _ _ _ _ => exact hcall _ _ _

/-! ## What a call gives -/

section

variable {sub : Runner} {callee : Expr} {paren : Token} {arguments : List Expr}
  {callable : Heap.Callable} {values : List Value} {machine ready after final : Machine}
  {closure : Closure} {value result : Value}

theorem nested_of_ok {action : Action α} {a : α}
    (h : action { machine with callDepth := machine.callDepth + 1 } = .ok a after) :
    nested action machine = .ok a { after with callDepth := after.callDepth - 1 } := by
  simp only [nested, h]

theorem allocate_of_eq {change : Heap → α × Heap} {a : α} {heap : Heap}
    (h : change machine.heap = (a, heap)) :
    allocate change machine = .ok a { machine with heap := heap } := by
  have hallocate : allocate change machine =
      .ok (change machine.heap).1 { machine with heap := (change machine.heap).2 } := rfl
  rw [hallocate, h]

theorem Calls.invoke (h : Calls sub callee arguments machine callable values ready)
    (hinvoke : nested (Run.invoke sub callable values) ready = .ok result final) :
    evaluateCall sub callee paren arguments machine = .ok result final := by
  obtain ⟨value, between, hvalue, hvalues, hcallable⟩ := h.evaluated
  refine bind_of_ok hvalue (bind_of_ok hvalues (bind_of_ok rfl ?_))
  rw [hcallable]
  refine bind_of_ok rfl ?_
  rw [if_neg (Nat.not_lt_of_le h.arity)]
  refine bind_of_ok rfl ?_
  rw [if_neg (Nat.not_le_of_lt h.room)]
  exact hinvoke

theorem callClosure_of_ok
    (hbody : sub (.executeAll closure.declaration.body) (ready.inCall closure values) =
      .ok (.returned value) after) :
    callClosure sub closure values { ready with callDepth := ready.callDepth + 1 } =
      .ok (closure.answer value after.heap) { after with environment := ready.environment } := by
  refine bind_of_ok rfl (bind_of_ok rfl (bind_of_ok (within_of_ok hbody) ?_))
  rw [Closure.answer]
  cases closure.isInitializer with
  | true => rfl
  | false => rfl

theorem construct_of_ok {id : ClassId} {receiver : InstanceId} {added bound : Heap} {method : Closure}
    (hadded : ready.heap.addInstance id = (receiver, added))
    (hmethod : added.initializer? id = some method)
    (hbound : added.bindThis method receiver = (closure, bound))
    (hbody : sub (.executeAll closure.declaration.body)
      (Machine.inCall { ready with heap := bound } closure values) = .ok (.returned value) after) :
    construct sub id values { ready with callDepth := ready.callDepth + 1 } =
      .ok (.instance_ receiver) { after with environment := ready.environment } := by
  refine bind_of_ok (allocate_of_eq hadded) (bind_of_ok rfl ?_)
  rw [hmethod]
  exact bind_of_ok (allocate_of_eq hbound) (bind_of_ok (callClosure_of_ok hbody) rfl)

end

/-! ### Calls that succeed -/

section

variable {sub : Runner} {callee : Expr} {paren : Token} {arguments : List Expr}
  {values : List Value} {machine after : Machine} {closure : Closure} {result : Value}

theorem ok_of_nested {action : Action α} {a : α}
    (h : nested action machine = .ok a after) :
    ∃ last, action { machine with callDepth := machine.callDepth + 1 } = .ok a last ∧
      after = { last with callDepth := last.callDepth - 1 } := by
  rw [nested_eq_put] at h
  cases hend : action { machine with callDepth := machine.callDepth + 1 } with
  | ok b last =>
      rw [hend] at h
      cases h
      exact ⟨last, rfl, rfl⟩
  | error interrupt last =>
      rw [hend] at h
      cases h

/-- A call that succeeds calls something. -/
theorem calls_of_ok (h : evaluateCall sub callee paren arguments machine = .ok result after) :
    ∃ callable values ready last, Calls sub callee arguments machine callable values ready ∧
      invoke sub callable values { ready with callDepth := ready.callDepth + 1 } =
        .ok result last ∧
          after = { last with callDepth := last.callDepth - 1 } := by
  obtain ⟨value, between, hvalue, h⟩ := ok_of_bind h
  obtain ⟨values, ready, hvalues, h⟩ := ok_of_bind h
  obtain ⟨_, _, hread, h⟩ := ok_of_bind h
  cases hread
  cases hcallable : ready.heap.callable? value with
  | none =>
      rw [hcallable] at h
      cases h
  | some callable =>
      rw [hcallable] at h
      obtain ⟨_, _, hread, h⟩ := ok_of_bind h
      cases hread
      split at h
      · cases h
      · next harity =>
          obtain ⟨_, _, hread, h⟩ := ok_of_bind h
          cases hread
          split at h
          · cases h
          · next hroom =>
              obtain ⟨last, hlast, hafter⟩ := ok_of_nested h
              exact ⟨callable, values, ready, last, ⟨⟨value, between, hvalue, hvalues, hcallable⟩,
                Nat.le_of_not_lt harity, Nat.lt_of_not_le hroom⟩, hlast, hafter⟩

/-- A function that gave a value has run its body. -/
theorem ok_of_callClosure (ready : Machine)
    (h : callClosure sub closure values { ready with callDepth := ready.callDepth + 1 } =
      .ok result after) :
    ∃ flow last, sub (.executeAll closure.declaration.body) (ready.inCall closure values) =
        .ok flow last ∧ after = { last with environment := ready.environment } ∧
      (closure.isInitializer = true →
        result = (last.heap.getAt? closure.environment 0 "this").getD .nil) := by
  obtain ⟨_, _, hopened, h⟩ := ok_of_bind h
  cases hopened
  obtain ⟨_, _, hbound, h⟩ := ok_of_bind h
  cases hbound
  obtain ⟨flow, _, hbody, h⟩ := ok_of_bind h
  obtain ⟨last, hlast⟩ := ok_of_within hbody
  rw [within_of_ok hlast] at hbody
  cases hbody
  refine ⟨flow, last, hlast, ?_⟩
  cases hinitializer : closure.isInitializer with
  | true =>
      rw [hinitializer] at h
      cases h
      exact ⟨rfl, fun _ => rfl⟩
  | false =>
      rw [hinitializer] at h
      cases flow <;> cases h <;> exact ⟨rfl, nofun⟩

end

section

variable {fuel : Nat} {id : NodeId} {callee : Expr} {paren : Token} {arguments : List Expr}
  {callable : Heap.Callable} {values : List Value} {machine ready start after : Machine}
  {closure : Closure} {value : Value} {answer : Value → Heap → Value}

theorem Calls.control (h : Calls (Task.run fuel) callee arguments machine callable values ready) :
    ready.control = machine.control := by
  obtain ⟨value, between, hvalue, hvalues, -⟩ := h.evaluated
  have hfirst := run_control fuel (.evaluate callee) machine
  have hsecond := run_control fuel (.evaluateAll arguments) between
  rw [hvalue] at hfirst
  rw [hvalues] at hsecond
  exact hsecond.trans hfirst

theorem Calls.restored (h : Calls (Task.run fuel) callee arguments machine callable values ready)
    (hdepth : after.callDepth = ready.callDepth + 1) :
    { after with environment := ready.environment, callDepth := after.callDepth - 1 } =
      { after with environment := machine.environment, callDepth := machine.callDepth } := by
  have henvironment : ready.environment = machine.environment :=
    congrArg Control.environment h.control
  have hready : ready.callDepth = machine.callDepth := congrArg Control.callDepth h.control
  rw [henvironment, hdepth, hready, Nat.add_sub_cancel]

/-- The call gives its answer when the body that it entered has returned, in its own environment and
with as many calls under way as before. -/
theorem Enters.returns (h : Enters (Task.run fuel) callee arguments machine closure start answer)
    (hbody : Task.run fuel (.executeAll closure.declaration.body) start =
      .ok (.returned value) after) :
    Task.run (fuel + 1) (.evaluate (.call id callee paren arguments)) machine =
      .ok (answer value after.heap)
        { after with environment := machine.environment, callDepth := machine.callDepth } := by
  have hdepth := run_callDepth fuel (.executeAll closure.declaration.body) start
  rw [hbody] at hdepth
  change after.callDepth = start.callDepth at hdepth
  cases h with
  | function hcalls =>
      rw [← hcalls.restored hdepth]
      exact hcalls.invoke (nested_of_ok (callClosure_of_ok hbody))
  | initializer hcalls hadded hmethod hbound =>
      rw [← hcalls.restored hdepth]
      exact hcalls.invoke (nested_of_ok (construct_of_ok hadded hmethod hbound hbody))

end

/-! ## No return leaks -/

/-- A program without static errors never ends in a return, nor does any of its statements, whatever
the machine did before. Any statements end in a return only at a `return` of their own, after which
nothing in them is done. A call absorbs the return of the body that it enters: it gives the value, or
the new instance. Whatever interrupts something inside the body interrupts the call. -/
theorem return_never_leaks :
    (∀ program distances, Scope.resolve program = (distances, []) → ∀ fuel machine value after,
      (∀ s ∈ program, Task.run fuel (.execute s) machine ≠ .ok (.returned value) after) ∧
        Task.run fuel (.executeAll program) machine ≠ .ok (.returned value) after) ∧
    (∀ fuel statements machine value after,
      Task.run fuel (.executeAll statements) machine = .ok (.returned value) after →
        ∃ rest keyword e moment last, .return_ keyword e ∈ Stmt.returnsAll statements ∧
          Returns fuel (.executeAll statements) machine rest keyword e moment ∧
            Task.run rest (.execute (.return_ keyword e)) moment = .ok (.returned value) last ∧
              after = { last with environment := machine.environment }) ∧
    (∀ fuel statements machine rest keyword e moment value last,
      Stays fuel (.executeAll statements) machine rest (.execute (.return_ keyword e)) moment →
        Task.run rest (.execute (.return_ keyword e)) moment = .ok (.returned value) last →
          Returns fuel (.executeAll statements) machine rest keyword e moment ∧
            Task.run fuel (.executeAll statements) machine =
              .ok (.returned value) { last with environment := machine.environment }) ∧
    ∀ fuel id callee paren arguments machine body start,
      let call := Expr.call id callee paren arguments
      Asks (Task.run fuel) (.evaluate call) machine (.executeAll body) start →
        (∃ closure answer, Enters (Task.run fuel) callee arguments machine closure start answer ∧
          body = closure.declaration.body ∧ ∀ value after,
            Task.run fuel (.executeAll body) start = .ok (.returned value) after →
              Task.run (fuel + 1) (.evaluate call) machine = .ok (answer value after.heap)
                { after with environment := machine.environment, callDepth := machine.callDepth }) ∧
        ∀ rest last moment interrupt after, Comes fuel (.executeAll body) start rest last moment →
          Task.run rest last moment = .error interrupt after →
            ∃ final, Task.run (fuel + 1) (.evaluate call) machine = .error interrupt final := by
  refine ⟨fun program distances hresolve fuel machine value after => ?_,
    fun fuel statements machine value after hend => ?_,
    fun fuel statements machine rest keyword e moment value last hstays hlast => ?_, ?_⟩
  · have hnone := returnsAll_of_resolve hresolve
    exact ⟨fun s hs hend => not_gives_return (.execute s) (Stmt.returns_of_mem hnone hs) (.execute hend),
      fun hend => not_gives_return (.executeAll program) hnone (.executeAll hend)⟩
  · obtain ⟨rest, keyword, e, moment, last, hreturns, hlast, hafter⟩ :=
      (GivesReturn.executeAll hend).returns
    exact ⟨rest, keyword, e, moment, last, hreturns.mem_returns, hreturns, hlast, hafter⟩
  · obtain ⟨hreturns, hgives⟩ := hstays.returns hlast
    cases hgives with
    | executeAll hend => exact ⟨hreturns, hend⟩
  · intro fuel id callee paren arguments machine body start call hasks
    obtain ⟨closure, answer, henters, rfl⟩ := enters_of_asks hasks
    refine ⟨⟨closure, answer, henters, rfl, fun value after hbody => henters.returns hbody⟩, ?_⟩
    intro rest last moment interrupt after hcomes hlast
    obtain ⟨between, hbody⟩ := hcomes.interrupted hlast
    exact hasks.interrupted hbody

/-- A function that returns from a loop. -/
def loopReturn : FunctionDecl :=
  ⟨⟨.identifier, "f", 1⟩, [], [.while_ (.literal 0 (.bool true)) (.return_ ⟨.keyword .return_, "return", 1⟩ none)]⟩

/-- A call of the function. -/
def loopCall : Expr :=
  .call 2 (.var 1 ⟨.identifier, "f", 1⟩) ⟨.symbol .rightParen, ")", 1⟩ []

/-- A new machine that has declared the function. -/
def loopDeclared : Machine :=
  Outcome.machine (Task.run 3 (.execute (.function loopReturn)) (.start (fun _ => 0) .unlimited))

theorem return_never_leaks_loop :
    (∃ distances, Scope.resolve [.function loopReturn, .expression loopCall] = (distances, []) ∧
      Task.run 9 (.executeAll [.function loopReturn, .expression loopCall])
        (.start (fun _ => 0) .unlimited) ≠ .ok (.returned .nil) loopDeclared) ∧
    (∃ after, Task.run 5 (.executeAll loopReturn.body) loopDeclared = .ok (.returned .nil) after ∧
      ∃ rest keyword e moment, .return_ keyword e ∈ Stmt.returnsAll loopReturn.body ∧
        Returns 5 (.executeAll loopReturn.body) loopDeclared rest keyword e moment) ∧
    let start := loopDeclared.inCall ⟨loopReturn, 0, false⟩ []
    Asks (Task.run 5) (.evaluate loopCall) loopDeclared (.executeAll loopReturn.body) start ∧
      (∃ after, Task.run 5 (.executeAll loopReturn.body) start = .ok (.returned .nil) after) ∧
        ∃ result final, Task.run 6 (.evaluate loopCall) loopDeclared = .ok result final := by
  obtain ⟨haccepted, hown, -, hcalls⟩ := return_never_leaks
  refine ⟨⟨_, by rfl, (haccepted _ _ (by rfl) 9 _ _ _).2⟩, ⟨_, by rfl, ?_⟩, ?_⟩
  · obtain ⟨rest, keyword, e, moment, -, hmem, hreturns, -⟩ := hown 5 loopReturn.body loopDeclared _ _ (by rfl)
    exact ⟨rest, keyword, e, moment, hmem, hreturns⟩
  · intro start
    have hcallee : Task.run 5 (.evaluate (.var 1 ⟨.identifier, "f", 1⟩)) loopDeclared =
        .ok (.function 0) loopDeclared := by rfl
    have harguments : Task.run 5 (.evaluateAll []) loopDeclared = .ok [] loopDeclared := by rfl
    have hcallable : loopDeclared.heap.callable? (.function 0) =
        some (.closure ⟨loopReturn, 0, false⟩) := by rfl
    have hasks : Asks (Task.run 5) (.evaluate loopCall) loopDeclared (.executeAll loopReturn.body)
        start := call_asks_body hcallee harguments hcallable (by decide) (by decide)
    obtain ⟨⟨closure, answer, -, -, hanswers⟩, -⟩ := hcalls _ _ _ _ _ _ _ _ hasks
    exact ⟨hasks, ⟨_, by rfl⟩, _, _, hanswers .nil _ (by rfl)⟩

end Run

end Lox
