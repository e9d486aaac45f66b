import Lox.Proofs.Run.Statements
import Lox.Proofs.Run.Trace

/-!
# Every step is traced

The steps of all expressions and statements, one lemma for each that does more than pass on what it
asked for.
-/

namespace Lox.Run

variable {turn : Turn} {machine after : Machine}

/-- The machine is one of those from which the step goes on. -/
structure Turn.At (turn : Turn) (machine : Machine) : Prop where
  code : turn.code.task turn.task
  control : machine.control = turn.machine.control
  sound : machine.heap.Sound turn.rules

namespace Turn.At

theorem evolves (h : turn.At machine) (hevolves : Evolves turn.rules machine after) :
    turn.At after :=
  ⟨h.code, hevolves.control.trans h.control, h.sound.changes hevolves.heap⟩

/-- A part of the task may be asked for. -/
theorem permits (h : turn.At machine) {inner : Task} (hpart : inner ∈ turn.task.parts) :
    turn.Permits inner machine :=
  ⟨turn.code.part h.code hpart, congrArg Control.distances h.control,
    .inl ⟨hpart, congrArg Control.callDepth h.control⟩⟩

/-- It may be asked for in any environment. -/
theorem permits_within (h : turn.At machine) {inner : Task} (hpart : inner ∈ turn.task.parts)
    (place : EnvironmentId) : turn.Permits inner { machine with environment := place } :=
  let hpermits := h.permits hpart
  ⟨hpermits.code, hpermits.distances, hpermits.depth⟩

end Turn.At

/-- A part of the task is done. -/
theorem part_does (h : turn.At machine) {inner : Task} (hpart : inner ∈ turn.task.parts) :
    Does turn (fun runner => runner inner) machine
      fun a after => turn.sub inner machine = .ok a after :=
  .ask (h.permits hpart)

/-! ## Operators and names -/

theorem unary_does {operator : Token} (operand : Value)
    (hfaults : ∀ fault ∈ [RuntimeFault.operandNotNumber, .invalidUnaryOperator],
      (⟨fault, operator⟩ : RuntimeError) ∈ turn.task.faults) :
    Does turn (fun _ => unary operator operand) machine fun _ _ => True := by
  unfold unary
  split
  · exact .pure True.intro
  · exact .fail (hfaults _ (by simp))
  · exact .pure True.intro
  · exact .fail (hfaults _ (by simp))

theorem arithmetic_does {operator : Token} (a b : Float)
    (hfault : (⟨.invalidBinaryOperator, operator⟩ : RuntimeError) ∈ turn.task.faults) :
    Does turn (fun _ => arithmetic operator a b) machine fun _ _ => True := by
  unfold arithmetic
  split <;> first | exact .pure True.intro | exact .fail hfault

theorem binary_does {operator : Token} (left right : Value)
    (hfaults : ∀ fault ∈ [RuntimeFault.operandsNotNumbers, .operandsNotAddable,
      .invalidBinaryOperator], (⟨fault, operator⟩ : RuntimeError) ∈ turn.task.faults) :
    Does turn (fun _ => binary operator left right) machine fun _ _ => True := by
  unfold binary
  split
  · unfold add
    split
    · exact .pure True.intro
    · exact .pure True.intro
    · exact .fail (hfaults _ (by simp))
  · exact .pure True.intro
  · exact .pure True.intro
  · split
    · exact arithmetic_does _ _ (hfaults _ (by simp))
    · exact .fail (hfaults _ (by simp))

theorem readVariable_does (node : NodeId) {name : Token}
    (hfault : Heap.undefined name ∈ turn.task.faults) :
    Does turn (fun _ => readVariable node name) machine fun _ _ => True := by
  refine Does.get.bind ?_
  rintro _ machine _ ⟨rfl, rfl⟩
  split
  · split
    · exact .pure True.intro
    · exact .fail hfault
  · rw [Heap.get]
    split
    · exact .pure True.intro
    · exact .throw hfault

theorem writeVariable_does (node : NodeId) {name : Token} (value : Value)
    (hname : turn.code.name name.lexeme) (hfault : Heap.undefined name ∈ turn.task.faults) :
    Does turn (fun _ => writeVariable node name value) machine fun _ _ => True := by
  refine Does.get.bind ?_
  rintro _ machine _ ⟨rfl, rfl⟩
  split
  · exact (Does.update (Heap.Change.define _ value hname).changes).mono fun _ _ _ => True.intro
  · exact .assign _ value hname hfault

theorem readSuper_does (h : turn.At machine) (node : NodeId) {keyword method : Token}
    (hfaults : ∀ error ∈ (Task.evaluate (.super_ node keyword method)).faults,
      error ∈ turn.task.faults) :
    Does turn (fun _ => readSuper node keyword method) machine fun _ _ => True := by
  refine Does.get.bind ?_
  rintro _ machine hevolves ⟨rfl, rfl⟩
  have hat := h.evolves hevolves
  split
  · exact .fail (hfaults _ (by simp [Task.faults]))
  · split
    · split
      · split
        · next hfound =>
            exact (Does.allocate (.boundMethod (hat.sound.findMethod? hfound) _)).mono
              fun _ _ _ => True.intro
        · exact .fail (hfaults _ (by simp [Task.faults]))
      · exact .fail (hfaults _ (by simp [Task.faults]))
    · exact .fail (hfaults _ (by simp [Task.faults]))

/-! ## Expressions -/

section

variable (h : turn.At machine)

include h

theorem evaluateLogical_does {id : NodeId} {left right : Expr} {operator : Token}
    (htask : turn.task = .evaluate (.logical id left operator right)) :
    Does turn (fun runner => evaluateLogical runner left operator right) machine
      fun _ _ => True := by
  refine (part_does h (by simp [htask, Task.parts, expressionParts])).bind ?_
  intro value after hevolves _
  refine .ite (fun _ => .pure True.intro) fun _ => ?_
  exact (part_does (h.evolves hevolves) (by simp [htask, Task.parts, expressionParts])).mono
    fun _ _ _ => True.intro

theorem evaluateGet_does {id : NodeId} {object : Expr} {name : Token}
    (htask : turn.task = .evaluate (.get id object name)) :
    Does turn (fun runner => evaluateGet runner object name) machine fun _ _ => True := by
  refine (part_does h (by simp [htask, Task.parts, expressionParts])).bind ?_
  intro value after hevolves _
  have hat := h.evolves hevolves
  cases value with
  | instance_ receiver =>
      refine Does.heap.bind ?_
      rintro _ after hread ⟨rfl, rfl⟩
      cases hproperty : after.heap.property? receiver name.lexeme with
      | none => exact .fail (by simp [htask, Task.faults])
      | some property =>
          cases property with
          | field value => exact .pure True.intro
          | method method =>
              exact (Does.allocate (.boundMethod (hat.sound.property? hproperty) receiver)).mono
                fun _ _ _ => True.intro
  | _ => exact .fail (by simp [htask, Task.faults])

theorem evaluateSet_does {id : NodeId} {object value : Expr} {name : Token}
    (htask : turn.task = .evaluate (.set id object name value)) :
    Does turn (fun runner => evaluateSet runner object name value) machine fun _ _ => True := by
  refine (part_does h (by simp [htask, Task.parts, expressionParts])).bind ?_
  intro target after hevolves _
  cases target with
  | instance_ receiver =>
      refine (part_does (h.evolves hevolves)
        (by simp [htask, Task.parts, expressionParts])).bind ?_
      intro value last _ _
      refine (Does.update (Heap.Change.setField receiver name.lexeme value).changes).bind ?_
      intro _ _ _ _
      exact .pure True.intro
  | _ => exact .fail (by simp [htask, Task.faults])

end

/-! ## Calls -/

theorem bindParameters_changes {rules : Heap.Rules} (place : EnvironmentId)
    {parameters : List Token} (hnames : ∀ parameter ∈ parameters, rules.name parameter.lexeme)
    (arguments : List Value) (heap : Heap) :
    Heap.Changes rules heap (bindParameters place parameters arguments heap) := by
  induction parameters generalizing arguments heap with
  | nil => exact .refl heap
  | cons parameter rest ih =>
      cases arguments with
      | nil => exact .refl heap
      | cons argument arguments =>
          have hfirst : Heap.Change rules heap (heap.define place parameter.lexeme argument) :=
            .define place argument (hnames parameter List.mem_cons_self)
          exact hfirst.changes.trans
            (ih (fun other hother => hnames other (List.mem_cons_of_mem _ hother)) _ _)

/-- The machine is inside a call that the step makes. -/
structure Turn.InCall (turn : Turn) (machine : Machine) : Prop where
  calls : ∀ body, turn.task.Calls (.executeAll body)
  distances : machine.distances = turn.machine.distances
  callDepth : machine.callDepth = turn.machine.callDepth + 1
  below : turn.machine.callDepth < maxCallDepth
  sound : machine.heap.Sound turn.rules

/-- The changes inside a call keep to the rules as well. -/
theorem Turn.InCall.evolves (h : turn.InCall machine)
    (hevolves : Evolves turn.rules machine after) : turn.InCall after :=
  ⟨h.calls, hevolves.distances.trans h.distances, hevolves.callDepth.trans h.callDepth, h.below,
    h.sound.changes hevolves.heap⟩

/-- The body of a callee may be asked for, in any environment. -/
theorem Turn.InCall.permits (h : turn.InCall machine) {declaration : FunctionDecl}
    (hdeclaration : turn.code.declaration declaration) (place : EnvironmentId) :
    turn.Permits (.executeAll declaration.body) { machine with environment := place } :=
  ⟨turn.code.body hdeclaration, h.distances, .inr ⟨h.calls _, h.below, h.callDepth⟩⟩

section

variable (h : turn.InCall machine)

include h

theorem callClosure_does {closure : Closure}
    (hclosure : turn.code.declaration closure.declaration) (arguments : List Value) :
    Does turn (fun runner => callClosure runner closure arguments) machine fun _ _ => True := by
  have hopened : Heap.Change turn.rules machine.heap
      (machine.heap.child closure.environment (some (.function closure.declaration))).2 :=
    .enter _ (.function _)
  refine (Does.allocate hopened.changes).bind ?_
  rintro place entered hentered ⟨-, rfl⟩
  refine (Does.update (bindParameters_changes place (turn.code.parameters hclosure) arguments _)).bind
    ?_
  rintro _ bound hbound rfl
  have hinside := (h.evolves hentered).evolves hbound
  refine (Does.within (.ask (hinside.permits hclosure place))).bind fun flow last hrun _ => ?_
  refine .ite (fun _ => ?_) fun _ => ?_
  · refine Does.heap.bind ?_
    rintro _ _ _ ⟨rfl, rfl⟩
    exact .pure True.intro
  · cases flow with
    | normal => exact .pure True.intro
    | returned value => exact .pure True.intro

theorem construct_does (id : ClassId) (arguments : List Value) :
    Does turn (fun runner => construct runner id arguments) machine fun _ _ => True := by
  refine (Does.allocate (Heap.Change.addInstance id).changes).bind ?_
  rintro receiver added hadded ⟨-, rfl⟩
  refine Does.heap.bind ?_
  rintro _ _ hread ⟨rfl, rfl⟩
  have hinside := (h.evolves hadded).evolves hread
  split
  · next method hmethod =>
      refine (Does.allocate (Heap.Change.receive method receiver).changes).bind ?_
      rintro closure bound hbound ⟨hclosure, rfl⟩
      have hfound : turn.code.declaration method.declaration :=
        hinside.sound.findMethod? hmethod
      have hdeclaration : turn.code.declaration closure.declaration := by
        rw [hclosure]
        exact hfound
      refine (callClosure_does (hinside.evolves hbound) hdeclaration arguments).bind ?_
      intro _ _ _ _
      exact .pure True.intro
  · exact .pure True.intro

theorem invoke_does {callee : Heap.Callable} (arguments : List Value)
    (hcallee : ∀ closure, callee = .closure closure →
      turn.code.declaration closure.declaration) :
    Does turn (fun runner => invoke runner callee arguments) machine fun _ _ => True := by
  cases callee with
  | native native => cases native with
    | clock => exact .give (.refl _) rfl True.intro
  | closure closure => exact callClosure_does h (hcallee closure rfl) arguments
  | class_ id => exact construct_does h id arguments

end

theorem evaluateCall_does (h : turn.At machine) {id : NodeId} {callee : Expr} {paren : Token}
    {arguments : List Expr} (htask : turn.task = .evaluate (.call id callee paren arguments)) :
    Does turn (fun runner => evaluateCall runner callee paren arguments) machine
      fun _ _ => True := by
  refine (part_does h (by simp [htask, Task.parts, expressionParts])).bind ?_
  intro value after hfirst _
  have hat := h.evolves hfirst
  refine (part_does hat (by simp [htask, Task.parts, expressionParts])).bind ?_
  intro values last hsecond _
  have hat := hat.evolves hsecond
  refine Does.heap.bind ?_
  rintro _ machine hread ⟨rfl, rfl⟩
  cases hcallable : machine.heap.callable? value with
  | none => exact .fail (by simp [htask, Task.faults])
  | some callable =>
      refine Does.heap.bind ?_
      rintro _ machine hread ⟨rfl, rfl⟩
      refine .ite (fun _ => .fail (by simp [htask, Task.faults])) fun _ => ?_
      refine Does.get.bind ?_
      rintro _ machine hread ⟨rfl, rfl⟩
      refine .ite (fun _ => .fail (by simp [htask, Task.faults])) fun hdepth => ?_
      have hcontrol := congrArg Control.callDepth hat.control
      have hcalled : turn.InCall { machine with callDepth := machine.callDepth + 1 } := by
        refine ⟨fun body => ?_, congrArg Control.distances hat.control,
          congrArg (· + 1) hcontrol, ?_, hat.sound⟩
        · rw [htask]
          exact .body
        · rw [← show machine.callDepth = turn.machine.callDepth from hcontrol]
          exact Nat.lt_of_not_le hdepth
      refine (Does.nested (invoke_does hcalled values ?_)).mono fun _ _ _ => True.intro
      rintro closure rfl
      exact hat.sound.callable? hcallable

theorem evaluate_does (h : turn.At machine) {e : Expr} (htask : turn.task = .evaluate e) :
    Does turn (fun runner => evaluate runner e) machine fun _ _ => True := by
  cases e with
  | literal id value => exact .pure True.intro
  | grouping id inner =>
      exact (part_does h (by simp [htask, Task.parts, expressionParts])).mono
        fun _ _ _ => True.intro
  | unary id operator operand =>
      refine (part_does h (by simp [htask, Task.parts, expressionParts])).bind ?_
      intro value _ _ _
      exact unary_does value (by simp [htask, Task.faults])
  | binary id left operator right =>
      refine (part_does h (by simp [htask, Task.parts, expressionParts])).bind ?_
      intro a after hevolves _
      refine (part_does (h.evolves hevolves) (by simp [htask, Task.parts, expressionParts])).bind ?_
      intro b _ _ _
      exact binary_does a b (by simp [htask, Task.faults])
  | logical id left operator right => exact evaluateLogical_does h htask
  | var id name => exact readVariable_does id (by simp [htask, Task.faults])
  | assign id name value =>
      refine (part_does h (by simp [htask, Task.parts, expressionParts])).bind ?_
      intro value after _ _
      have hname : turn.code.name name.lexeme := turn.code.names h.code _ (by simp [htask, Task.names])
      refine (writeVariable_does id value hname (by simp [htask, Task.faults])).bind ?_
      intro _ _ _ _
      exact .pure True.intro
  | call id callee paren arguments => exact evaluateCall_does h htask
  | get id object name => exact evaluateGet_does h htask
  | set id object name value => exact evaluateSet_does h htask
  | super_ id keyword method =>
      exact readSuper_does h id fun error herror => by rwa [htask]
  | this_ id keyword => exact readVariable_does id (by simp [htask, Task.faults])

theorem evaluateAll_does (h : turn.At machine) {es : List Expr}
    (htask : turn.task = .evaluateAll es) :
    Does turn (fun runner => evaluateAll runner es) machine fun _ _ => True := by
  cases es with
  | nil => exact .pure True.intro
  | cons e rest =>
      refine (part_does h (by simp [htask, Task.parts])).bind ?_
      intro value after hevolves _
      refine (part_does (h.evolves hevolves) (by simp [htask, Task.parts])).bind ?_
      intro values _ _ _
      exact .pure True.intro

/-! ## Statements -/

/-- What is recorded when a class is declared: its superclass is the class that the superclass
expression gives, and the environment of `super` is the next one. -/
def Turn.Records (turn : Turn) : Prop :=
  ∀ name superclass methods id after,
    turn.task = .execute (.class_ name (some superclass) methods) →
      turn.sub (.evaluate superclass) { turn.machine with
        heap := turn.machine.heap.define turn.machine.environment name.lexeme .nil } =
          .ok (.class_ id) after →
        turn.recorded after.heap.environments.size methods id

section

variable (h : turn.At machine)

include h

theorem evaluateOpt_does {value : Option Expr}
    (hparts : ∀ e, value = some e → Task.evaluate e ∈ turn.task.parts) :
    Does turn (fun runner => evaluateOpt runner value) machine fun _ _ => True := by
  cases value with
  | none => exact .pure True.intro
  | some e => exact (part_does h (hparts e rfl)).mono fun _ _ _ => True.intro

theorem evaluateSuperclass_does {name : Token} {superclass : Option Expr}
    {methods : List FunctionDecl}
    (htask : turn.task = .execute (.class_ name superclass methods)) :
    Does turn (fun runner => evaluateSuperclass runner name superclass) machine fun id after =>
      ∀ parent, id = some parent → ∃ e, superclass = some e ∧
        turn.sub (.evaluate e) machine = .ok (.class_ parent) after := by
  cases superclass with
  | none => exact .pure fun parent hparent => by cases hparent
  | some e =>
      refine (part_does h (by simp [htask, Task.parts, statementParts])).bind ?_
      intro value after _ hvalue
      cases value with
      | class_ id => exact .pure fun parent hparent => ⟨e, rfl, by cases hparent; exact hvalue⟩
      | _ => exact .fail (by simp [htask, Task.faults])

omit h in
/-- The environment of `super` is as recorded. -/
theorem methodEnvironment_does {superclass : Option ClassId} {methods : List FunctionDecl}
    (hrecorded : ∀ parent, superclass = some parent →
      turn.recorded machine.heap.environments.size methods parent) :
    Does turn (fun _ => methodEnvironment superclass methods) machine fun _ _ => True := by
  cases superclass with
  | none =>
      refine Does.here.bind ?_
      rintro _ _ _ ⟨rfl, rfl⟩
      exact .pure True.intro
  | some id =>
      have hchange : Heap.Change turn.rules machine.heap
          (machine.heap.inherit machine.environment methods id) :=
        .inherit _ (hrecorded id rfl)
      exact .give hchange.changes rfl True.intro

theorem executeClass_does {name : Token} {superclass : Option Expr} {methods : List FunctionDecl}
    (htask : turn.task = .execute (.class_ name superclass methods))
    (hmachine : machine = turn.machine) (hrecords : turn.Records) :
    Does turn (fun runner => executeClass runner name superclass methods) machine
      fun _ _ => True := by
  have hname : turn.code.name name.lexeme := turn.code.names h.code _ (by simp [htask, Task.names])
  have hfault : Heap.undefined name ∈ turn.task.faults := by
    cases superclass <;> simp [htask, Task.faults]
  refine (Does.define hname .nil).bind ?_
  rintro _ defined hdefined rfl
  have hat := h.evolves hdefined
  refine (evaluateSuperclass_does hat htask).bind fun id after hsuperclass hid => ?_
  have hat := hat.evolves hsuperclass
  have hrecorded : ∀ parent, id = some parent →
      turn.recorded after.heap.environments.size methods parent := by
    intro parent hparent
    obtain ⟨e, rfl, hvalue⟩ := hid parent hparent
    subst hmachine
    exact hrecords name e methods parent after htask hvalue
  refine (methodEnvironment_does hrecorded).bind fun place after hentered _ => ?_
  have hat := hat.evolves hentered
  have htable : ∀ name method, (methodTable place methods).get? name = some method →
      turn.code.declaration method.declaration := by
    intro name method hmethod
    refine turn.code.declarations h.code _ ?_
    rw [htask]
    exact (methodTable_get? hmethod).1
  refine (Does.allocate (Heap.Change.addClass htable).changes).bind ?_
  rintro id after hadded ⟨rfl, rfl⟩
  refine Does.here.bind ?_
  rintro _ after hread ⟨rfl, rfl⟩
  exact .assign _ _ hname hfault

theorem executeWhile_does {condition : Expr} {body : Stmt}
    (htask : turn.task = .execute (.while_ condition body)) :
    Does turn (fun runner => executeWhile runner condition body) machine fun _ _ => True := by
  refine (part_does h (by simp [htask, Task.parts, statementParts])).bind ?_
  intro value after hevolves _
  have hat := h.evolves hevolves
  refine .ite (fun _ => ?_) fun _ => .pure True.intro
  refine (part_does hat (by simp [htask, Task.parts, statementParts])).bind ?_
  intro flow last hevolves _
  cases flow with
  | normal =>
      exact (part_does (hat.evolves hevolves)
        (by simp [htask, Task.parts, statementParts])).mono fun _ _ _ => True.intro
  | returned value => exact .pure True.intro

theorem execute_does {s : Stmt} (htask : turn.task = .execute s) (hmachine : machine = turn.machine)
    (hrecords : turn.Records) :
    Does turn (fun runner => execute runner s) machine fun _ _ => True := by
  cases s with
  | expression value =>
      refine (part_does h (by simp [htask, Task.parts, statementParts])).bind ?_
      intro _ _ _ _
      exact .pure True.intro
  | print value =>
      refine (part_does h (by simp [htask, Task.parts, statementParts])).bind ?_
      intro value _ _ _
      refine Does.heap.bind ?_
      rintro _ _ _ ⟨rfl, rfl⟩
      refine (Does.settle _).bind ?_
      intro _ _ _ _
      exact .pure True.intro
  | var name initializer =>
      have hname : turn.code.name name.lexeme :=
        turn.code.names h.code _ (by simp [htask, Task.names])
      refine (evaluateOpt_does h (by rintro e rfl; simp [htask, Task.parts, statementParts])).bind ?_
      intro value _ _ _
      refine (Does.define hname value).bind ?_
      intro _ _ _ _
      exact .pure True.intro
  | block body =>
      refine Does.here.bind ?_
      rintro _ machine hread ⟨rfl, rfl⟩
      have hopened : Heap.Change turn.rules machine.heap
          (machine.heap.child machine.environment (some (.block body))).2 := .enter _ (.block body)
      refine (Does.allocate hopened.changes).bind ?_
      rintro place entered hentered ⟨rfl, rfl⟩
      have hat := h.evolves hentered
      have hbody : Task.executeAll body ∈ turn.task.parts := by
        simp [htask, Task.parts, statementParts]
      exact (Does.within (.ask (hat.permits_within hbody _))).mono fun _ _ _ => True.intro
  | function declaration =>
      have hname : turn.code.name declaration.name.lexeme :=
        turn.code.names h.code _ (by simp [htask, Task.names])
      have hdeclaration : turn.code.declaration declaration :=
        turn.code.declarations h.code _ (by simp [htask, Task.declarations])
      refine Does.here.bind ?_
      rintro _ machine _ ⟨rfl, rfl⟩
      refine (Does.allocate (Heap.Change.addFunction hdeclaration).changes).bind ?_
      rintro id _ _ ⟨rfl, rfl⟩
      refine (Does.define hname _).bind ?_
      intro _ _ _ _
      exact .pure True.intro
  | class_ name superclass methods =>
      refine (executeClass_does h htask hmachine hrecords).bind ?_
      intro _ _ _ _
      exact .pure True.intro
  | ifThen condition thenBranch =>
      refine (part_does h (by simp [htask, Task.parts, statementParts])).bind ?_
      intro value after hevolves _
      refine .ite (fun _ => ?_) fun _ => .pure True.intro
      exact (part_does (h.evolves hevolves)
        (by simp [htask, Task.parts, statementParts])).mono fun _ _ _ => True.intro
  | ifElse condition thenBranch elseBranch =>
      refine (part_does h (by simp [htask, Task.parts, statementParts])).bind ?_
      intro value after hevolves _
      refine .ite (fun _ => ?_) fun _ => ?_
      · exact (part_does (h.evolves hevolves)
          (by simp [htask, Task.parts, statementParts])).mono fun _ _ _ => True.intro
      · exact (part_does (h.evolves hevolves)
          (by simp [htask, Task.parts, statementParts])).mono fun _ _ _ => True.intro
  | while_ condition body => exact executeWhile_does h htask
  | return_ keyword value =>
      refine (evaluateOpt_does h (by rintro e rfl; simp [htask, Task.parts, statementParts])).bind ?_
      intro _ _ _ _
      exact .pure True.intro

theorem executeAll_does {statements : List Stmt} (htask : turn.task = .executeAll statements) :
    Does turn (fun runner => executeAll runner statements) machine fun _ _ => True := by
  cases statements with
  | nil => exact .pure True.intro
  | cons s rest =>
      refine (part_does h (by simp [htask, Task.parts])).bind ?_
      intro flow after hevolves _
      cases flow with
      | normal =>
          exact (part_does (h.evolves hevolves) (by simp [htask, Task.parts])).mono
            fun _ _ _ => True.intro
      | returned value => exact .pure True.intro

end

/-- Every step is traced, whatever runs the tasks inside it. -/
theorem step_traced (turn : Turn) (hcode : turn.code.task turn.task)
    (hsound : turn.machine.heap.Sound turn.rules) (hrecords : turn.Records) :
    Traced turn turn.machine.control (fun _ _ => True) turn.machine.heap
      fun runner => turn.task.step runner turn.machine := by
  have hat : turn.At turn.machine := ⟨hcode, rfl, hsound⟩
  cases htask : turn.task with
  | evaluate e => exact evaluate_does hat htask
  | evaluateAll es => exact evaluateAll_does hat htask
  | execute s => exact execute_does hat htask rfl hrecords
  | executeAll statements => exact executeAll_does hat htask

end Lox.Run
