import Lox.Proofs.Run.Initializer

/-!
# Constructors

A class that is called makes a new instance and gives it, when the nearest method `init` of its
chain has run once on it with the arguments of the call.
-/

namespace Lox

namespace Heap

variable {heap : Heap}

/-- The value is plain data, or refers to something on the heap. -/
def Has (heap : Heap) (value : Value) : Prop :=
  ∀ location, value.location? = some location → ¬heap.Vacant location

theorem holdsValue_nothing {value : Value} :
    Outset.nothing.HoldsValue heap value ↔ heap.Has value :=
  forall₂_congr fun _ _ => Outset.holds_nothing

end Heap

namespace Run

variable {machine moment ready : Machine}

/-! ## New instances -/

/-- The instance is not identical to any value that is plain data or refers to something on the
heap, and bindings, fields and arguments have no other values than these. -/
structure IsNew (heap : Heap) (values : List Value) (receiver : InstanceId) : Prop where
  distinct : ∀ value, heap.Has value → value.equals (.instance_ receiver) = false
  bindings : ∀ place name value, heap.binding? place name = some value → heap.Has value
  fields : ∀ place name value, (heap.instance_ place).fields.get? name = some value →
    heap.Has value
  arguments : ∀ value ∈ values, heap.Has value

theorem Grounded.isNew (h : Grounded machine) {values : List Value}
    (hvalues : ∀ value ∈ values, Outset.nothing.HoldsValue machine.heap value) :
    IsNew machine.heap values machine.heap.instances.size where
  distinct value hvalue := by
    cases value with
    | instance_ place =>
        have hbelow : place < machine.heap.instances.size :=
          Nat.lt_of_not_le (hvalue (.instance_ place) rfl)
        exact beq_false_of_ne (Nat.ne_of_lt hbelow)
    | _ => rfl
  bindings place name value hread := by
    have hplace : place < machine.heap.environments.size := by
      apply Nat.lt_of_not_le
      intro hle
      rw [Heap.binding?, Heap.environment_of_size_le hle] at hread
      cases hread
    have hheld : Outset.nothing.Holds machine.heap (.environment place) :=
      Outset.holds_nothing.mpr (Nat.not_le_of_lt hplace)
    exact Heap.holdsValue_nothing.mp (h.resides.heap.binding? hheld hread)
  fields place name value hread := by
    have hplace : place < machine.heap.instances.size := by
      apply Nat.lt_of_not_le
      intro hle
      rw [Heap.instance_, Array.getElem?_eq_none hle] at hread
      cases hread
    have hheld : Outset.nothing.Holds machine.heap (.instance_ place) :=
      Outset.holds_nothing.mpr (Nat.not_le_of_lt hplace)
    exact Heap.holdsValue_nothing.mp fun location hlocation =>
      h.resides.heap.closed hheld (.field hread hlocation)
  arguments value hvalue := Heap.holdsValue_nothing.mp (hvalues value hvalue)

/-! ## Parameters -/

section

variable {heap : Heap} {place : EnvironmentId}

/-- Parameters are bound in the environment of the call only. -/
theorem binding?_bindParameters_of_ne (hplace : place < heap.environments.size)
    {other : EnvironmentId} (hne : place ≠ other) (parameters : List Token) (values : List Value)
    (name : String) :
    (bindParameters place parameters values heap).binding? other name =
      heap.binding? other name := by
  induction parameters generalizing values heap with
  | nil => rfl
  | cons parameter rest ih =>
      cases values with
      | nil => rfl
      | cons value values =>
          rw [bindParameters, ih (by rwa [Heap.size_define]),
            Heap.binding?_define _ _ _ _ _ _ hplace, if_neg fun h => hne h.1]

/-- Each parameter is bound to its argument, the last one if there are two of a name. -/
theorem binding?_bindParameters (hplace : place < heap.environments.size) (parameters : List Token)
    (values : List Value) (name : String) (value : Value) :
    (bindParameters place parameters values heap).binding? place name = some value ↔
      (∃ parameter, LastOf (·.1.lexeme = name) (parameters.zip values) (parameter, value)) ∨
        (∀ pair ∈ parameters.zip values, pair.1.lexeme ≠ name) ∧
          heap.binding? place name = some value := by
  induction parameters generalizing values heap with
  | nil => simp [bindParameters, not_lastOf_nil]
  | cons parameter rest ih =>
      cases values with
      | nil => simp [bindParameters, not_lastOf_nil]
      | cons argument values =>
          rw [bindParameters, ih (by rwa [Heap.size_define]),
            Heap.binding?_define _ _ _ _ _ _ hplace]
          simp only [List.zip_cons_cons, lastOf_cons, List.forall_mem_cons, true_and]
          constructor
          · rintro (⟨other, hlast⟩ | ⟨hnone, hread⟩)
            · exact .inl ⟨other, .inl hlast⟩
            · by_cases hname : parameter.lexeme = name
              · rw [if_pos hname] at hread
                cases hread
                exact .inl ⟨parameter, .inr ⟨rfl, hname, hnone⟩⟩
              · rw [if_neg hname] at hread
                exact .inr ⟨⟨hname, hnone⟩, hread⟩
          · rintro (⟨other, hlast | ⟨hpair, hname, hnone⟩⟩ | ⟨⟨hname, hnone⟩, hread⟩)
            · exact .inl ⟨other, hlast⟩
            · cases hpair
              exact .inr ⟨hnone, if_pos hname⟩
            · rw [if_neg hname]
              exact .inr ⟨hnone, hread⟩

end

/-- The body of a method begins: in a new environment that binds the parameters to the arguments in
their order, inside a new one that binds `this` to the instance, inside the one of the method. -/
structure InMethod (heap : Heap) (method : Closure) (receiver : InstanceId) (values : List Value)
    (begun : Machine) : Prop where
  new : heap.Vacant (.environment begun.environment)
  parameters : ∀ name value, begun.heap.binding? begun.environment name = some value ↔
    ∃ parameter,
      LastOf (·.1.lexeme = name) (method.declaration.parameters.zip values) (parameter, value)
  this : ∃ place, begun.heap.outer? begun.environment = some place ∧
    heap.Vacant (.environment place) ∧
      begun.heap.binding? place "this" = some (.instance_ receiver) ∧
        begun.heap.outer? place = some method.environment

/-- The machine when the body of an initializer begins on a new instance. -/
def Machine.initializing (ready : Machine) (id : ClassId) (method : Closure)
    (values : List Value) : Machine :=
  let (receiver, added) := ready.heap.addInstance id
  let (closure, bound) := added.bindThis method receiver
  Machine.inCall { ready with heap := bound } closure values

theorem inMethod_initializing (ready : Machine) (id : ClassId) (method : Closure)
    (values : List Value) :
    InMethod ready.heap method ready.heap.instances.size values
      (ready.initializing id method values) := by
  -- the environment of `this` is made first, and that of the parameters inside it
  let receiver := ready.heap.instances.size
  let added := (ready.heap.addInstance id).2
  let outer := ready.heap.environments.size
  let bound := (added.bindThis method receiver).2
  let place := bound.environments.size
  let opened := (bound.child outer (some (.function method.declaration))).2
  have hinside : outer < place := by
    simp [outer, place, bound, added, Heap.addInstance, Heap.bindThis, Heap.child, Heap.define]
  have hplace : place < opened.environments.size := by
    rw [Heap.size_child]
    exact Nat.lt_succ_self _
  have hnew : opened.environment place =
      ⟨.empty, some outer, some (.function method.declaration)⟩ :=
    (Heap.environment_child _ _ _ _).trans (if_pos rfl)
  have hgrows := grows_bindParameters place method.declaration.parameters values opened
  refine ⟨Nat.le_of_lt hinside, fun name value => ?_, outer, ?_, Nat.le_refl _, ?_, ?_⟩
  · have hempty : opened.binding? place name = none := by
      rw [Heap.binding?, hnew]
      rfl
    have hparameters :=
      binding?_bindParameters hplace method.declaration.parameters values name value
    rw [hempty] at hparameters
    exact hparameters.trans (or_iff_left (by simp))
  · exact (hgrows.enclosing place hplace).trans (congrArg Environment.enclosing hnew)
  · have hsame := binding?_bindParameters_of_ne hplace (Nat.ne_of_gt hinside)
      method.declaration.parameters values "this"
    have hbound : bound.binding? outer "this" = some (.instance_ receiver) :=
      bindThis_this added method receiver
    exact hsame.trans ((Heap.binding?_child _ _ _ hinside _).trans hbound)
  · have hbegun := (Heap.Grows.child bound outer _).trans hgrows
    exact (hbegun.enclosing outer hinside).trans (bindThis_outer added method receiver)

/-- The instances when the body begins. -/
theorem instances_initializing (ready : Machine) (id : ClassId) (method : Closure)
    (values : List Value) :
    (ready.initializing id method values).heap.instances =
      (ready.heap.addInstance id).2.instances :=
  congrArg Objects.instances (bindParameters_objects _ _ _ _)

/-! ## Calls of classes -/

/-- What a call of a class does when it has asked for its callee and its arguments: it makes the
instance, and if the chain of the class has a method `init`, it needs as many arguments as the
nearest one has parameters, asks for the body of that one, on the instance, and for nothing else, and
leaves the machine as this one run of the body does. -/
inductive Constructs (fuel : Nat) (call : Task) (moment : Machine)
    (asked : List (Task × Machine)) (ready : Machine) (id : ClassId) (values : List Value)
    (receiver : InstanceId) (after : Machine) : Prop where
  | plain :
      (∀ method, ¬ready.heap.Nearest id "init" method) →
        (∀ inner start, Asks (Task.run fuel) call moment inner start ↔ (inner, start) ∈ asked) →
          after = { ready with heap := (ready.heap.addInstance id).2 } →
            Constructs fuel call moment asked ready id values receiver after
  | initialized {method : Closure} {begun last : Machine} {flow : Flow} :
      ready.heap.Nearest id "init" method →
        ready.heap.arity (.class_ id) = method.declaration.parameters.length →
          method.declaration.parameters.length ≤ values.length →
            InMethod ready.heap method receiver values begun →
              (∀ inner start, Asks (Task.run fuel) call moment inner start ↔
                (inner, start) ∈ asked ++ [(.executeAll method.declaration.body, begun)]) →
                Task.run fuel (.executeAll method.declaration.body) begun = .ok flow last →
                  after = { last with
                    environment := ready.environment, callDepth := ready.callDepth } →
                    Constructs fuel call moment asked ready id values receiver after

section

variable {fuel : Nat} {sub : Runner} {node : NodeId} {callee : Expr} {paren : Token}
  {arguments : List Expr} {callable : Heap.Callable} {value result : Value} {values : List Value}
  {between after : Machine} {id : ClassId} {method : Closure}

theorem initializer?_addInstance (heap : Heap) (made id : ClassId) :
    (heap.addInstance made).2.initializer? id = heap.initializer? id := by
  have hclasses : (heap.addInstance made).2.classes = heap.classes := rfl
  exact Heap.findMethod?_of_classes hclasses id "init"

/-- What a class that gave an instance has done. -/
theorem ok_of_construct
    (h : construct sub id values { ready with callDepth := ready.callDepth + 1 } =
      .ok result after) :
    result = .instance_ ready.heap.instances.size ∧
      ((ready.heap.initializer? id = none ∧ after = { ready with
          heap := (ready.heap.addInstance id).2, callDepth := ready.callDepth + 1 }) ∨
      ∃ method flow last, ready.heap.initializer? id = some method ∧
        sub (.executeAll method.declaration.body) (ready.initializing id method values) =
          .ok flow last ∧
            after = { last with environment := ready.environment }) := by
  obtain ⟨receiver, added, hadded⟩ : ∃ receiver added,
      ready.heap.addInstance id = (receiver, added) := ⟨_, _, rfl⟩
  have hsame := initializer?_addInstance ready.heap id id
  rw [hadded] at hsame
  have hreceiver : ready.heap.instances.size = receiver := congrArg Prod.fst hadded
  obtain ⟨_, _, hmade, h⟩ := ok_of_bind h
  rw [allocate_of_eq hadded] at hmade
  cases hmade
  obtain ⟨_, _, hread, h⟩ := ok_of_bind h
  cases hread
  cases hmethod : added.initializer? id with
  | none =>
      simp only [hmethod] at h
      cases h
      exact ⟨by rw [hreceiver], .inl ⟨hsame ▸ hmethod, by rw [hadded]⟩⟩
  | some method =>
      obtain ⟨closure, bound, hbound⟩ : ∃ closure bound,
          added.bindThis method receiver = (closure, bound) := ⟨_, _, rfl⟩
      simp only [hmethod] at h
      obtain ⟨_, _, htaken, h⟩ := ok_of_bind h
      rw [allocate_of_eq hbound] at htaken
      cases htaken
      obtain ⟨_, _, hcalled, h⟩ := ok_of_bind h
      cases h
      obtain ⟨flow, last, hbody, hafter, -⟩ :=
        ok_of_callClosure { ready with heap := bound } hcalled
      obtain rfl : closure = { method with environment := added.environments.size } :=
        (congrArg Prod.fst hbound).symm
      refine ⟨by rw [hreceiver], .inr ⟨method, flow, last, hsame ▸ hmethod, ?_, hafter⟩⟩
      simp only [Machine.initializing, hadded, hbound]
      exact hbody

theorem asks_of_no_initializer (hnone : ready.heap.initializer? id = none) :
    asks (invokeScript (.class_ id) values ready) = [] := by
  rw [← initializer?_addInstance ready.heap id] at hnone
  simp only [invokeScript, hnone]
  rfl

theorem asks_of_initializer (hmethod : ready.heap.initializer? id = some method) :
    asks (invokeScript (.class_ id) values ready) =
      [(.executeAll method.declaration.body, ready.initializing id method values)] := by
  rw [← initializer?_addInstance ready.heap id] at hmethod
  simp only [invokeScript, hmethod]
  rfl

/-- The instance that was made keeps its class. -/
theorem made_lasts {heap later : Heap}
    (hinstances : heap.instances = (ready.heap.addInstance id).2.instances)
    (hlasts : heap.Lasts later) :
    ready.heap.instances.size < later.instances.size ∧
      (later.instance_ ready.heap.instances.size).class_ = id := by
  have hplace : ready.heap.instances.size < heap.instances.size := by
    simp [hinstances, Heap.addInstance]
  have hmade : heap.instance_ ready.heap.instances.size = ⟨id, .empty⟩ := by
    rw [Heap.instance_, hinstances]
    exact (Heap.instance_addInstance ready.heap id _).trans (if_pos rfl)
  refine ⟨Nat.lt_of_lt_of_le hplace hlasts.instances_le, ?_⟩
  rw [hlasts.classOf _ hplace, hmade]

variable {clock : Nat → Float} {sink : Sink} {last : NodeId} {programs : List (List Stmt)}

/-- A call that succeeds asks for its callee, for its arguments, and then for what it calls. -/
theorem Calls.asks_iff
    (hcalls : Calls (Task.run fuel) callee arguments moment callable values ready)
    (hgrounded : Grounded moment)
    (hcallee : Task.run fuel (.evaluate callee) moment = .ok value between) (inner : Task)
    (start : Machine) :
    Asks (Task.run fuel) (.evaluate (.call node callee paren arguments)) moment inner start ↔
      (inner, start) ∈ [(.evaluate callee, moment), (.evaluateAll arguments, between)] ++
        asks (invokeScript callable values ready) := by
  obtain ⟨_, _, hvalue, hvalues, hcallable⟩ := hcalls.evaluated
  rw [hcallee] at hvalue
  cases hvalue
  have hscript :
      Task.script (Task.run fuel) (.evaluate (.call node callee paren arguments)) moment =
        .ask (.evaluate callee) moment :: .ask (.evaluateAll arguments) between ::
          invokeScript callable values ready := by
    simp only [Task.script, expressionScript, askThen, hcallee, hvalues, callScript, hcallable,
      if_neg (Nat.not_lt_of_le hcalls.arity), if_neg (Nat.not_le_of_lt hcalls.room)]
  rw [(hgrounded.scripted fuel _).turn.asks_iff, hscript]
  rfl

/-- A call of a class that succeeds gives a new instance of the class. -/
theorem Past.constructs
    (hcall : Past clock sink machine last programs (fuel + 1)
      (.evaluate (.call node callee paren arguments)) moment)
    (hcallee : Task.run fuel (.evaluate callee) moment = .ok (.class_ id) between)
    (hrun : Task.run (fuel + 1) (.evaluate (.call node callee paren arguments)) moment =
      .ok result after) :
    ∃ values ready receiver,
      Task.run fuel (.evaluateAll arguments) between = .ok values ready ∧
        result = .instance_ receiver ∧ IsNew ready.heap values receiver ∧
          receiver < after.heap.instances.size ∧ (after.heap.instance_ receiver).class_ = id ∧
            Constructs fuel (.evaluate (.call node callee paren arguments)) moment
              [(.evaluate callee, moment), (.evaluateAll arguments, between)] ready id values
                receiver after := by
  obtain ⟨callable, values, ready, final, hcalls, hinvoke, rfl⟩ := calls_of_ok hrun
  obtain ⟨_, _, hvalue, hvalues, hcallable⟩ := hcalls.evaluated
  rw [hcallee] at hvalue
  cases hvalue
  cases hcallable
  obtain ⟨hpast, hpast'⟩ := hcall.call_asks hcallee
  obtain ⟨hready, -⟩ := hpast'.after_ok hvalues
  have hasks : ∀ inner start,
      Asks (Task.run fuel) (.evaluate (.call node callee paren arguments)) moment inner start ↔ _ :=
    hcalls.asks_iff hcall.grounded hcallee
  have hnew : IsNew ready.heap values ready.heap.instances.size :=
    hready.isNew ((run_spares .nothing fuel).of_ok hpast'.grounded.resides hvalues).2
  obtain ⟨rfl, ⟨hnone, rfl⟩ | ⟨method, flow, last, hmethod, hbody, rfl⟩⟩ := ok_of_construct hinvoke
  · obtain ⟨hplace, hclass⟩ := made_lasts rfl (.refl (ready.heap.addInstance id).2)
    refine ⟨values, ready, _, hvalues, rfl, hnew, hplace, hclass, ?_⟩
    rw [asks_of_no_initializer hnone] at hasks
    refine .plain (fun method hnearest => ?_) hasks rfl
    rw [Heap.initializer?, hready.founded.findMethod?_iff_nearest.mpr hnearest] at hnone
    cases hnone
  · rw [asks_of_initializer hmethod] at hasks
    -- the body is run in the past as well, so that nothing it did changes the class
    have hasksBody := (hasks _ _).mpr (List.mem_append_right _ List.mem_cons_self)
    have hlasts := (hcall.asks hasksBody).begins.1.evolves.heap.lasts
    have hdepth := run_callDepth fuel (.executeAll method.declaration.body)
      (ready.initializing id method values)
    rw [hbody] at hlasts hdepth
    obtain ⟨hplace, hclass⟩ := made_lasts (instances_initializing ready id method values) hlasts
    refine ⟨values, ready, _, hvalues, rfl, hnew, hplace, hclass, ?_⟩
    have harity : ready.heap.arity (.class_ id) = method.declaration.parameters.length := by
      rw [Heap.arity, hmethod]
      rfl
    refine .initialized (hready.founded.findMethod?_iff_nearest.mp hmethod) harity
      (harity ▸ hcalls.arity) (inMethod_initializing ready id method values) hasks hbody ?_
    have hrestored : last.callDepth - 1 = ready.callDepth :=
      (congrArg (· - 1) hdepth).trans (Nat.add_sub_cancel _ 1)
    rw [← hrestored]

end

/-! ## What constructors and initializers give -/

/-- In every run of programs without static errors on one machine, a call of a class that succeeds
gives a new instance of that class. If the chain of the class has a method `init`, the class needs
as many arguments as the nearest one has parameters, and the call has asked for the body of that
method once, on the instance, with its parameters bound to the arguments in their order; otherwise
it has asked for nothing. A call of a method `init` that was obtained from an instance gives the
instance whenever it succeeds. -/
theorem constructors_give_their_instance (clock : Nat → Float) (sink : Sink) (machine : Machine)
    (last : NodeId) (programs : List (List Stmt)) :
    (∀ fuel node callee paren arguments moment id between result after,
      let call := Task.evaluate (.call node callee paren arguments)
      Past clock sink machine last programs (fuel + 1) call moment →
        Task.run fuel (.evaluate callee) moment = .ok (.class_ id) between →
          Task.run (fuel + 1) call moment = .ok result after →
            ∃ values ready receiver,
              Task.run fuel (.evaluateAll arguments) between = .ok values ready ∧
                result = .instance_ receiver ∧ IsNew ready.heap values receiver ∧
                  receiver < after.heap.instances.size ∧
                    (after.heap.instance_ receiver).class_ = id ∧
                      Constructs fuel call moment
                        [(.evaluate callee, moment), (.evaluateAll arguments, between)] ready id
                          values receiver after) ∧
    ∀ function receiver, Obtained clock sink machine last programs function receiver →
      ∀ fuel node callee paren arguments moment between result after,
        let call := Task.evaluate (.call node callee paren arguments)
        Past clock sink machine last programs (fuel + 1) call moment →
          Task.run fuel (.evaluate callee) moment = .ok (.function function) between →
            Task.run (fuel + 1) call moment = .ok result after → result = .instance_ receiver :=
  ⟨fun _ _ _ _ _ _ _ _ _ _ hcall hcallee hrun => hcall.constructs hcallee hrun,
    fun _ _ hobtained _ _ _ _ _ _ _ _ _ hcall hcallee hrun =>
      hcall.gives_receiver hobtained.initializes hcallee hrun⟩

/-- A class with an initializer. -/
def initClass : Stmt :=
  .class_ ⟨.identifier, "A", 1⟩ none [⟨⟨.identifier, "init", 1⟩, [⟨.identifier, "x", 1⟩], []⟩]

/-- A new instance of it. -/
def initInstance : Expr :=
  .call 2 (.var 0 ⟨.identifier, "A", 1⟩) ⟨.symbol .rightParen, ")", 1⟩ [.literal 1 .nil]

/-- The initializer as a property of the instance. -/
def initRead : Expr := .get 3 initInstance ⟨.identifier, "init", 1⟩

/-- A call of the initializer. -/
def initCall : Expr := .call 5 initRead ⟨.symbol .rightParen, ")", 1⟩ [.literal 4 .nil]

/-- The class, and the call. -/
def initProgram : List Stmt := [initClass, .expression initCall]

/-- The machine after the class is declared. -/
def initDeclared : Machine :=
  Outcome.machine (Task.run 9 (.execute initClass)
    ((Machine.start (fun _ => 0) .unlimited).learn (Scope.resolve initProgram).1))

/-- The machine after the initializer is read. -/
def initReady : Machine :=
  Outcome.machine (Task.run 6 (.evaluate initRead) initDeclared)

/-- The machine after the program. -/
def initEnd : Machine :=
  Outcome.machine (interpret 10 initProgram (Scope.resolve initProgram).1
    (.start (fun _ => 0) .unlimited))

theorem constructors_give_their_instance_init :
    Past (fun _ => 0) .unlimited initEnd 6 [initProgram] 5 (.evaluate initInstance) initDeclared ∧
      (∃ values ready receiver after,
        Task.run 5 (.evaluate initInstance) initDeclared = .ok (.instance_ 0) after ∧
          IsNew ready.heap values receiver ∧
            Constructs 4 (.evaluate initInstance) initDeclared
              [(.evaluate (.var 0 ⟨.identifier, "A", 1⟩), initDeclared),
                (.evaluateAll [.literal 1 .nil], initDeclared)] ready 0 values receiver after) ∧
        Obtained (fun _ => 0) .unlimited initEnd 6 [initProgram] 0 0 ∧
          ∃ result after, Task.run 7 (.evaluate initCall) initDeclared = .ok result after ∧
            result = .instance_ 0 := by
  obtain ⟨hclasses, hmethods⟩ :=
    constructors_give_their_instance (fun _ => 0) .unlimited initEnd 6 [initProgram]
  have haccepted : Accepted "class A \x7binit(x) \x7b\x7d\x7d A(nil).init(nil);" 0 initProgram
      (Scope.resolve initProgram).1 6 := ⟨by rfl, by rfl, by rfl⟩
  have hdeclared : Task.run 9 (.execute initClass)
      ((Machine.start (fun _ => 0) .unlimited).learn (Scope.resolve initProgram).1) =
        .ok .normal initDeclared := by rfl
  have hcall : Past (fun _ => 0) .unlimited initEnd 6 [initProgram] 7 (.evaluate initCall)
      initDeclared :=
    .now .start haccepted <| .inside (executeAll_asks_rest hdeclared _) <|
      .inside (executeAll_asks_first _ _ _ _) <| .inside (expression_asks_value _ _ _) .here
  have hcallee : Task.run 6 (.evaluate initRead) initDeclared = .ok (.function 0) initReady := by rfl
  have hread := (hcall.call_asks hcallee).1
  have hinstance := hread.asks (hread.grounded.asks_iff.mpr List.mem_cons_self)
  have hobtained : Obtained (fun _ => 0) .unlimited initEnd 6 [initProgram] 0 0 :=
    .property hread rfl (by rfl) (by rfl) hcallee
  obtain ⟨made, hmade⟩ : ∃ made, Task.run 5 (.evaluate initInstance) initDeclared =
      .ok (.instance_ 0) made := ⟨_, by rfl⟩
  have hcalls : Calls (Task.run 6) initRead [.literal 4 .nil] initDeclared
      (.closure (initReady.heap.closure 0)) [.nil] initReady :=
    ⟨⟨_, _, hcallee, by rfl, by rfl⟩, by decide +kernel, by decide +kernel⟩
  obtain ⟨result, after, hrun⟩ : ∃ result after,
      Task.run 7 (.evaluate initCall) initDeclared = .ok result after :=
    ⟨_, _, hcalls.invoke (nested_of_ok (bind_of_ok rfl (bind_of_ok rfl
      (bind_of_ok (within_of_ok rfl) rfl))))⟩
  obtain ⟨values, ready, receiver, -, -, hnew, -, -, hconstructs⟩ :=
    hclasses 4 _ _ _ _ _ 0 initDeclared _ _ hinstance (by rfl) hmade
  exact ⟨hinstance, ⟨values, ready, receiver, made, hmade, hnew, hconstructs⟩, hobtained,
    result, after, hrun, hmethods 0 0 hobtained 6 _ _ _ _ _ _ _ _ hcall hcallee hrun⟩

end Run

end Lox
