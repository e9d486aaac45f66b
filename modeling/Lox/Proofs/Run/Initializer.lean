import Lox.Proofs.Run.ObjectModel

/-!
# Initializers as functions

A method under the name `init` that is read from an instance, as a property or of the superclass, is
a function that gives this instance whenever it is called, whatever its body does.
-/

namespace Lox

/-! ## Functions that give an instance -/

/-- The function is an initializer in whose environment `this` is the instance. -/
structure Heap.Initializes (heap : Heap) (id : FunctionId) (receiver : InstanceId) : Prop where
  made : id < heap.functions.size
  initializer : (heap.closure id).isInitializer = true
  inside : (heap.closure id).environment < heap.environments.size
  this : heap.binding? (heap.closure id).environment "this" = some (.instance_ receiver)

namespace Heap.Initializes

variable {rules : Heap.Rules} {heap later : Heap} {id : FunctionId} {receiver : InstanceId}

/-- So it stays when nothing binds `this` anew. -/
theorem changes (h : heap.Initializes id receiver) (hword : ¬rules.name "this")
    (hchanges : Heap.Changes rules heap later) : later.Initializes id receiver := by
  have hclosure := hchanges.lasts.closure id h.made
  refine ⟨Nat.lt_of_lt_of_le h.made hchanges.lasts.functions_le, ?_, ?_, ?_⟩
  · rw [hclosure]
    exact h.initializer
  · rw [hclosure]
    exact Nat.lt_of_lt_of_le h.inside hchanges.grows.size
  · rw [hclosure, hchanges.binding?_eq hword h.inside]
    exact h.this

/-- So it was as soon as the function had been made. -/
theorem of_changes (h : later.Initializes id receiver) (hword : ¬rules.name "this")
    (hchanges : Heap.Changes rules heap later) (hfounded : heap.Founded)
    (hmade : id < heap.functions.size) : heap.Initializes id receiver := by
  have hclosure := hchanges.lasts.closure id hmade
  have hinside := hfounded.closure id hmade
  obtain ⟨-, hinitializer, -, hthis⟩ := h
  rw [hclosure] at hinitializer hthis
  rw [hchanges.binding?_eq hword hinside] at hthis
  exact ⟨hmade, hinitializer, hinside, hthis⟩

end Heap.Initializes

namespace Run

open Scope (Distances)

variable {clock : Nat → Float} {sink : Sink} {machine moment start : Machine} {nextId last : NodeId}
  {programs : List (List Stmt)} {rest : Nat} {task inner : Task}

/-- A method that a class offers is an initializer if its name says so. -/
theorem Offers.isInitializer {classes : List Declared} {id : ClassId} {name : String}
    {closure : Closure} (h : Offers classes id name closure) :
    closure.isInitializer = (name == "init") := by
  induction h with
  | own _ hlast =>
      obtain ⟨_, _, _, rfl, _⟩ := hlast
      rfl
  | inherited _ _ _ _ ih => exact ih

/-! ## The past of a machine -/

theorem Fed.used (h : Fed clock sink machine nextId programs) : Used clock sink machine := by
  induction h with
  | start => exact .start
  | feed fuel _ _ ih => exact ih.interpret fuel _ _

/-- The names that the code of programs may bind. -/
abbrev spelledRules : Heap.Rules :=
  (History.all .spelled).rules

theorem not_spelled_this : ¬spelledRules.name "this" :=
  fun hname => hname .this_ rfl

namespace Past

variable (h : Past clock sink machine last programs rest task moment)

include h

theorem fed : Fed clock sink machine last programs := by
  induction h with
  | now hfed haccepted _ => exact hfed.feed _ haccepted
  | before fuel _ haccepted ih => exact ih.feed fuel haccepted

theorem comes : ∃ fuel first used, Used clock sink used ∧
    Comes fuel first used rest task moment := by
  induction h with
  | now hfed _ hcomes => exact ⟨_, _, _, hfed.used.learn _, hcomes⟩
  | before _ _ _ ih => exact ih

theorem grounded : Grounded moment := by
  obtain ⟨_, _, _, hused, hcomes⟩ := h.comes
  exact hused.grounded.comes hcomes

/-- The code of programs was run then, and the heap has changed since by their rules only. -/
theorem begins : (History.all .spelled).Begins rest task moment ∧
    Heap.Changes spelledRules (Outcome.machine (Task.run rest task moment)).heap machine.heap := by
  induction h with
  | @now machine moment nextId last programs source program distances fuel rest task hfed haccepted
      hcomes =>
      have hbegins : (History.all .spelled).Begins fuel (.executeAll program)
          (machine.learn distances) :=
        ⟨True.intro, haccepted.checked.formed, hfed.settled.sound _⟩
      obtain ⟨hmoment, -, -, hafter⟩ := hbegins.comes hcomes
      rw [heap_interpret]
      exact ⟨hmoment, hafter⟩
  | @before machine moment nextId last programs source program distances rest task fuel hpast
      haccepted ih =>
      have hbegins : (History.all .spelled).Begins fuel (.executeAll program)
          (machine.learn distances) :=
        ⟨True.intro, haccepted.checked.formed, hpast.fed.settled.sound _⟩
      rw [heap_interpret]
      exact ⟨ih.1, ih.2.trans hbegins.evolves.heap⟩

/-- The machine after the task. -/
theorem after_ok {a : task.Result} {after : Machine}
    (hend : Task.run rest task moment = .ok a after) :
    Grounded after ∧ Heap.Changes spelledRules after.heap machine.heap := by
  have hgrounded := h.grounded.run rest task
  have hchanges := h.begins.2
  rw [hend] at hgrounded hchanges
  exact ⟨hgrounded, hchanges⟩

/-- The classes are those that were declared until the end of the task. -/
theorem ends_classes : ∃ classes : List Declared,
    (Outcome.machine (Task.run rest task moment)).heap.classes.toList =
      classes.map Declared.entry := by
  obtain ⟨_, _, _, hused, hcomes⟩ := h.comes
  obtain ⟨log, hlog⟩ := (Passes.ends hused hcomes).recalls
  exact ⟨declaredIn log, hlog.plays.2.classes_eq⟩

end Past

theorem Past.asks (h : Past clock sink machine last programs (rest + 1) task moment)
    (hasks : Asks (Task.run rest) task moment inner start) :
    Past clock sink machine last programs rest inner start := by
  generalize hleft : rest + 1 = left at h
  induction h with
  | now hfed haccepted hcomes =>
      subst hleft
      exact .now hfed haccepted (hcomes.asks hasks)
  | before fuel _ haccepted ih => exact .before fuel (ih hasks hleft) haccepted

/-! ## Methods as values -/

/-- A method value under the name `init` was obtained from an instance in the past: it was read as a
property, which no field hides, or of the superclass, where the instance is what `this` is. -/
inductive Obtained (clock : Nat → Float) (sink : Sink) (machine : Machine) (last : NodeId)
    (programs : List (List Stmt)) : FunctionId → InstanceId → Prop where
  | property {rest : Nat} {node : NodeId} {object : Expr} {name : Token}
      {moment state after : Machine} {receiver : InstanceId} {id : FunctionId} :
      Past clock sink machine last programs (rest + 1) (.evaluate (.get node object name)) moment →
        name.lexeme = "init" →
          Task.run rest (.evaluate object) moment = .ok (.instance_ receiver) state →
            (state.heap.instance_ receiver).fields.get? "init" = none →
              Task.run (rest + 1) (.evaluate (.get node object name)) moment =
                  .ok (.function id) after →
                Obtained clock sink machine last programs id receiver
  | super {rest : Nat} {node : NodeId} {keyword name : Token} {moment after : Machine}
      {distance : Nat} {receiver : InstanceId} {id : FunctionId} :
      Past clock sink machine last programs (rest + 1) (.evaluate (.super_ node keyword name))
          moment →
        name.lexeme = "init" → moment.distances[node]? = some distance →
          moment.heap.getAt? moment.environment (distance - 1) "this" =
              some (.instance_ receiver) →
            Task.run (rest + 1) (.evaluate (.super_ node keyword name)) moment =
                .ok (.function id) after →
              Obtained clock sink machine last programs id receiver

theorem IsBound.initializes {heap later : Heap} {method : Closure} {receiver : InstanceId}
    {id : FunctionId} (h : IsBound heap later method receiver id)
    (hmethod : method.isInitializer = true) : later.Initializes id receiver where
  made := by
    rw [h.new.1, h.new.2]
    exact Nat.lt_succ_self _
  initializer := by
    rw [h.closure]
    exact hmethod
  inside := by
    rw [h.closure]
    exact Heap.lt_size_of_enclosing h.enclosing
  this := by
    rw [h.closure]
    exact h.this

/-- What reading a method of the superclass gives. -/
theorem readSuper_binds {node : NodeId} {keyword name : Token} {value : Value} {after : Machine}
    {distance : Nat} {receiver : InstanceId} (hdistance : moment.distances[node]? = some distance)
    (hthis : moment.heap.getAt? moment.environment (distance - 1) "this" =
      some (.instance_ receiver))
    (h : readSuper node keyword name moment = .ok value after) :
    ∃ parent method, moment.heap.findMethod? parent name.lexeme = some method ∧
      value = .function moment.heap.functions.size ∧
        after.heap = (moment.heap.boundMethod method receiver).2 := by
  simp only [readSuper, bind, EStateM.bind, get_eq, hdistance, hthis] at h
  cases hsuper : moment.heap.getAt? moment.environment distance "super" with
  | none => simp only [hsuper] at h; cases h
  | some value =>
      cases value with
      | class_ parent =>
          cases hmethod : moment.heap.findMethod? parent name.lexeme with
          | some method =>
              simp only [hsuper, hmethod] at h
              cases h
              exact ⟨parent, method, hmethod, rfl, rfl⟩
          | none => simp only [hsuper, hmethod] at h; cases h
      | _ => simp only [hsuper] at h; cases h

/-- In the states of a run the methods under the name `init` are initializers. -/
theorem Past.isInitializer {a : task.Result} {after : Machine} {heap : Heap} {id : ClassId}
    {method : Closure} (h : Past clock sink machine last programs rest task moment)
    (hend : Task.run rest task moment = .ok a after) (hclasses : after.heap.classes = heap.classes)
    (hfounded : heap.Founded) (hmethod : heap.findMethod? id "init" = some method) :
    method.isInitializer = true := by
  obtain ⟨classes, hdeclared⟩ := h.ends_classes
  rw [hend, Outcome.machine, hclasses] at hdeclared
  exact ((findMethod?_iff_offers hfounded hdeclared).mp hmethod).isInitializer

/-- A function that was obtained gives its instance from then on. -/
theorem Obtained.initializes {id : FunctionId} {receiver : InstanceId}
    (h : Obtained clock sink machine last programs id receiver) :
    machine.heap.Initializes id receiver := by
  cases h with
  | @property rest node object name moment state after _ _ hpast hname hobject hfield hread =>
      have hasks : Asks (Task.run rest) (.evaluate (.get node object name)) moment
          (.evaluate object) moment := hpast.grounded.asks_iff.mpr List.mem_cons_self
      have hreads := evaluateGet_reads name hobject
      have hget : evaluateGet (Task.run rest) object name moment = .ok (.function id) after := hread
      have hfounded := ((hpast.asks hasks).after_ok hobject).1.founded
      obtain ⟨-, hafter⟩ := hpast.after_ok hread
      rw [hget, Heap.property?, hname, hfield] at hreads
      cases hmethod : state.heap.findMethod? (state.heap.instance_ receiver).class_ "init" with
      | none =>
          rw [hmethod] at hreads
          cases hreads
      | some method =>
          have hinitializer := (hpast.asks hasks).isInitializer hobject rfl hfounded hmethod
          rw [hmethod] at hreads
          cases hreads with
          | method hbound =>
              exact (hbound.initializes hinitializer).changes not_spelled_this hafter
  | @super rest node keyword name moment after distance _ _ hpast hname hdistance hthis hread =>
      obtain ⟨-, hafter⟩ := hpast.after_ok hread
      obtain ⟨parent, method, hmethod, heq, hheap⟩ := readSuper_binds hdistance hthis hread
      cases heq
      rw [hname] at hmethod
      have hclasses : after.heap.classes = moment.heap.classes := by
        rw [hheap]
        rfl
      have hinitializer := hpast.isInitializer hread hclasses hpast.grounded.founded hmethod
      have hbound := isBound_boundMethod moment.heap method receiver
      rw [← hheap] at hbound
      exact (hbound.initializes hinitializer).changes not_spelled_this hafter

section

variable {callee : Expr} {paren : Token} {arguments : List Expr} {node : NodeId}
  {between ready after : Machine} {value result : Value} {values : List Value}

/-- A call asks for its callee, and for its arguments when that has been evaluated. -/
theorem Past.call_asks
    (hcall : Past clock sink machine last programs (rest + 1)
      (.evaluate (.call node callee paren arguments)) moment)
    (hcallee : Task.run rest (.evaluate callee) moment = .ok value between) :
    Past clock sink machine last programs rest (.evaluate callee) moment ∧
      Past clock sink machine last programs rest (.evaluateAll arguments) between := by
  refine ⟨hcall.asks (hcall.grounded.asks_iff.mpr ?_), hcall.asks (hcall.grounded.asks_iff.mpr ?_)⟩
  · exact List.mem_cons_self
  · simp [Task.script, expressionScript, askThen, hcallee]

/-- Whenever a function that gives an instance is called, that is what it gives. -/
theorem Past.gives_receiver {id : FunctionId} {receiver : InstanceId}
    (hcall : Past clock sink machine last programs (rest + 1)
      (.evaluate (.call node callee paren arguments)) moment)
    (hinitializes : machine.heap.Initializes id receiver)
    (hcallee : Task.run rest (.evaluate callee) moment = .ok (.function id) between)
    (hrun : Task.run (rest + 1) (.evaluate (.call node callee paren arguments)) moment =
      .ok result after) : result = .instance_ receiver := by
  obtain ⟨callable, values, ready, final, hcalls, hinvoke, -⟩ := calls_of_ok hrun
  obtain ⟨value, _, hvalue, hvalues, hcallable⟩ := hcalls.evaluated
  rw [hcallee] at hvalue
  cases hvalue
  cases hcallable
  obtain ⟨hpast, hpast'⟩ := hcall.call_asks hcallee
  obtain ⟨hready, hlater⟩ := hpast'.after_ok hvalues
  -- the function was there when the callee had been evaluated
  have hmade : id < ready.heap.functions.size := by
    obtain ⟨hbetween, hgives⟩ :=
      (run_spares .nothing rest).of_ok hpast.grounded.resides hcallee
    obtain ⟨-, hmeets⟩ := run_spares .nothing rest (.evaluateAll arguments) between hbetween
    rw [hvalues] at hmeets
    have hheld := (hgives (.function id) rfl).keeps hmeets.1.heap
    exact Nat.lt_of_not_le (Outset.holds_nothing.mp hheld)
  have hbefore := hinitializes.of_changes not_spelled_this hlater hready.founded hmade
  obtain ⟨flow, body, hbody, -, hresult⟩ := ok_of_callClosure ready hinvoke
  have hasks : Asks (Task.run rest) (.evaluate (.call node callee paren arguments)) moment
      (.executeAll (ready.heap.closure id).declaration.body) _ :=
    call_asks_body hcallee hvalues rfl hcalls.arity hcalls.room
  have hbodyPast := hcall.asks hasks
  obtain ⟨-, hafter⟩ := hbodyPast.after_ok hbody
  have hgrows := hbodyPast.begins.1.evolves.heap.grows
  rw [hbody] at hgrows
  -- the environment of `this` is older than the call, so the body left its binding alone
  have hinside := Nat.lt_of_lt_of_le hbefore.inside
    ((ready.grows_inCall _ values).trans hgrows).size
  have hthis := hinitializes.this
  rw [hlater.lasts.closure id hmade, hafter.binding?_eq not_spelled_this hinside] at hthis
  rw [hresult hbefore.initializer, Heap.getAt?, Heap.ancestor, hthis]
  rfl

end

end Run

end Lox
