import Lox.Proofs.Heap.Reach
import Lox.Proofs.Run.Statements

/-!
# A call touches only what it can reach

Whatever a program does, it does to places that it holds: it reads values there, binds names and
stores fields there, and the places that it takes become its own. So a call leaves every environment
and every instance as it was that cannot be reached from the callee, the arguments and the globals.
-/

namespace Lox.Run

variable {α β : Type} {outset : Outset} {machine middle after : Machine}

/-! ## What holds before and after -/

/-- The machine is in an environment that is held, on a heap that is confined. -/
structure Resides (outset : Outset) (machine : Machine) : Prop where
  heap : outset.Confines machine.heap
  environment : outset.Holds machine.heap (.environment machine.environment)

/-- The machine is back in its environment, and its heap kept what is not held. -/
structure Spared (outset : Outset) (machine after : Machine) : Prop where
  heap : outset.Keeps machine.heap after.heap
  environment : after.environment = machine.environment

theorem Spared.refl (h : outset.Confines machine.heap) : Spared outset machine machine :=
  ⟨.refl h, rfl⟩

theorem Spared.trans (first : Spared outset machine middle) (second : Spared outset middle after) :
    Spared outset machine after :=
  ⟨first.heap.trans second.heap, second.environment.trans first.environment⟩

theorem Resides.spared (h : Resides outset machine) (hspared : Spared outset machine after) :
    Resides outset after :=
  ⟨hspared.heap.confined, by
    rw [hspared.environment]
    exact h.environment.keeps hspared.heap⟩

/-- A value that a statement returns is held. -/
def Flow.Held (outset : Outset) (heap : Heap) : Flow → Prop
  | normal => True
  | returned value => outset.HoldsValue heap value

/-- What a task gives is held. -/
def Task.Gives (outset : Outset) : (task : Task) → task.Result → Machine → Prop
  | evaluate _, value, after => outset.HoldsValue after.heap value
  | evaluateAll _, values, after => ∀ value ∈ values, outset.HoldsValue after.heap value
  | execute _, flow, after => Flow.Held outset after.heap flow
  | executeAll _, flow, after => Flow.Held outset after.heap flow

/-- From a machine, the action keeps what is not held, and its result is as expected. -/
abbrev Spares (outset : Outset) (action : Action α) (machine : Machine)
    (expect : α → Machine → Prop) : Prop :=
  Proceeds (Spared outset) action action machine expect

/-- The action gives a value that is held. -/
abbrev Yields (outset : Outset) (action : Action Value) (machine : Machine) : Prop :=
  Spares outset action machine fun value after => outset.HoldsValue after.heap value

/-! ## Actions that keep what is not held -/

namespace Spares

variable {action : Action α} {expect : α → Machine → Prop} {expect' : β → Machine → Prop}

theorem bind {second : α → Action β} (hfirst : Spares outset action machine expect)
    (hsecond : ∀ a after, Spared outset machine after → expect a after →
      Spares outset (second a) after expect') :
    Spares outset (action >>= second) machine expect' :=
  Proceeds.bind (fun _ _ _ first last => first.trans last) hfirst hsecond

theorem pure {a : α} (h : outset.Confines machine.heap) (hexpect : expect a machine) :
    Spares outset (Pure.pure a) machine expect :=
  Proceeds.pure (.refl h) hexpect

theorem fail (fault : RuntimeFault) (token : Token) (h : outset.Confines machine.heap) :
    Spares outset (Run.fail fault token : Action α) machine expect :=
  Proceeds.throw (.refl h)

theorem heap (h : outset.Confines machine.heap) :
    Spares outset Run.heap machine fun heap after => heap = machine.heap ∧ after = machine :=
  Proceeds.heap (.refl h)

theorem here (h : outset.Confines machine.heap) :
    Spares outset Run.here machine
      fun place after => place = machine.environment ∧ after = machine :=
  Proceeds.here (.refl h)

theorem get (h : outset.Confines machine.heap) :
    Spares outset MonadState.get machine fun state after => state = machine ∧ after = machine :=
  Proceeds.get (.refl h)

theorem allocate {change : Heap → α × Heap}
    (hkeeps : outset.Keeps machine.heap (change machine.heap).2) :
    Spares outset (Run.allocate change) machine fun a after =>
      a = (change machine.heap).1 ∧ after = { machine with heap := (change machine.heap).2 } :=
  Proceeds.of_ok rfl ⟨hkeeps, rfl⟩ ⟨rfl, rfl⟩

theorem update {change : Heap → Heap} (hkeeps : outset.Keeps machine.heap (change machine.heap)) :
    Spares outset (Run.update change) machine fun _ after =>
      after = { machine with heap := change machine.heap } :=
  Proceeds.of_ok rfl ⟨hkeeps, rfl⟩ rfl

/-- What happens in another environment that is held. -/
theorem within {place : EnvironmentId}
    (h : Spares outset action { machine with environment := place } expect)
    (hexpect : ∀ a after, expect a after →
      expect a { after with environment := machine.environment }) :
    Spares outset (Run.within place action) machine expect := by
  refine (Proceeds.within (fun after hspared => ⟨hspared.heap, rfl⟩) h).mono ?_
  rintro a after - ⟨inner, hinner, rfl⟩
  exact hexpect a inner hinner

/-- What happens inside a call. -/
theorem nested (h : Spares outset action { machine with callDepth := machine.callDepth + 1 } expect)
    (hexpect : ∀ a after, expect a after →
      expect a { after with callDepth := after.callDepth - 1 }) :
    Spares outset (Run.nested action) machine expect := by
  refine (Proceeds.nested (fun after hspared => ⟨hspared.heap, hspared.environment⟩) h).mono ?_
  rintro a after - ⟨inner, hinner, rfl⟩
  exact hexpect a inner hinner

/-- A new binding in the current environment. -/
theorem define (name : String) {value : Value} (hresides : Resides outset machine)
    (hvalue : outset.HoldsValue machine.heap value) :
    Spares outset (Run.define name value) machine fun _ _ => True := by
  refine (here hresides.heap).bind ?_
  rintro _ _ _ ⟨rfl, rfl⟩
  exact (update (hresides.heap.define name hresides.environment hvalue)).mono
    fun _ _ _ _ => True.intro

/-- A binding that is replaced on the chain of an environment that is held. -/
theorem assign {place : EnvironmentId} (name : Token) {value : Value}
    (h : outset.Confines machine.heap) (hplace : outset.Holds machine.heap (.environment place))
    (hvalue : outset.HoldsValue machine.heap value) :
    Spares outset (Run.assign place name value) machine fun _ _ => True := by
  refine (heap h).bind ?_
  rintro _ after _ ⟨rfl, rfl⟩
  cases hbinder : after.heap.binder? place name.lexeme with
  | some binder =>
      exact (update (h.define _ (h.binder? hplace hbinder) hvalue)).mono fun _ _ _ _ => True.intro
  | none => exact Proceeds.throw (.refl h)

/-- However the action ends, the machine kept what is not held. -/
theorem spared (h : Spares outset action machine expect) :
    Spared outset machine (Outcome.machine (action machine)) := by
  have hmeets := h.2
  cases hend : action machine with
  | ok a after =>
      rw [hend] at hmeets
      exact hmeets.1
  | error interrupt after =>
      rw [hend] at hmeets
      exact hmeets

/-- The output is no matter of the heap. -/
theorem write (text : String) (h : outset.Confines machine.heap) :
    Spares outset (Run.write text) machine fun _ _ => True := by
  refine ⟨rfl, ?_⟩
  rw [Run.write, settle]
  split
  · exact ⟨⟨.refl h, rfl⟩, True.intro⟩
  · exact ⟨.refl h, rfl⟩

end Spares

/-! ## Plain values -/

/-- An action that leaves the machine as it is, and gives a value that refers to nothing. -/
def Plain (action : Action Value) : Prop :=
  ∀ machine, (∃ value, value.location? = none ∧ action machine = .ok value machine) ∨
    ∃ interrupt, action machine = .error interrupt machine

namespace Plain

theorem pure {value : Value} (h : value.location? = none) : Plain (Pure.pure value) :=
  fun _ => .inl ⟨value, h, rfl⟩

theorem fail (fault : RuntimeFault) (token : Token) : Plain (Run.fail fault token) :=
  fun _ => .inr ⟨_, rfl⟩

theorem unary (operator : Token) (operand : Value) : Plain (Run.unary operator operand) := by
  unfold Run.unary
  split
  · exact pure rfl
  · exact fail _ _
  · exact pure rfl
  · exact fail _ _

theorem arithmetic (operator : Token) (a b : Float) : Plain (Run.arithmetic operator a b) := by
  unfold Run.arithmetic
  split <;> first | exact pure rfl | exact fail _ _

theorem binary (operator : Token) (left right : Value) :
    Plain (Run.binary operator left right) := by
  unfold Run.binary
  split
  · unfold Run.add
    split <;> first | exact pure rfl | exact fail _ _
  · exact pure rfl
  · exact pure rfl
  · split
    · exact arithmetic _ _ _
    · exact fail _ _

end Plain

theorem holdsValue_of_plain {heap : Heap} {value : Value} (h : value.location? = none) :
    outset.HoldsValue heap value := by
  intro location hlocation
  rw [h] at hlocation
  cases hlocation

theorem Plain.yields {action : Action Value} (haction : Plain action)
    (h : outset.Confines machine.heap) : Yields outset action machine := by
  refine ⟨rfl, ?_⟩
  obtain ⟨value, hplain, hend⟩ | ⟨interrupt, hend⟩ := haction machine
  · rw [hend]
    exact ⟨.refl h, holdsValue_of_plain hplain⟩
  · rw [hend]
    exact .refl h

/-! ## Names -/

theorem readVariable_yields (node : NodeId) (name : Token) (hresides : Resides outset machine) :
    Yields outset (readVariable node name) machine := by
  refine (Spares.get hresides.heap).bind ?_
  rintro _ after - ⟨rfl, rfl⟩
  cases after.distances[node]? with
  | some distance =>
      cases hread : after.heap.getAt? after.environment distance name.lexeme with
      | some value =>
          simp only [hread]
          exact Spares.pure hresides.heap (hresides.heap.getAt? hresides.environment hread)
      | none =>
          simp only [hread]
          exact Spares.fail _ _ hresides.heap
  | none =>
      cases hread : after.heap.get? Heap.globals name.lexeme with
      | some value =>
          simp only [Heap.get, hread]
          exact Spares.pure hresides.heap (hresides.heap.get? hresides.heap.globals hread)
      | none =>
          simp only [Heap.get, hread]
          exact Proceeds.throw (.refl hresides.heap)

theorem writeVariable_spares (node : NodeId) (name : Token) {value : Value}
    (hresides : Resides outset machine) (hvalue : outset.HoldsValue machine.heap value) :
    Spares outset (writeVariable node name value) machine fun _ _ => True := by
  refine (Spares.get hresides.heap).bind ?_
  rintro _ after - ⟨rfl, rfl⟩
  cases after.distances[node]? with
  | some distance =>
      exact (Spares.update (hresides.heap.define _
        (hresides.heap.ancestor hresides.environment distance) hvalue)).mono
          fun _ _ _ _ => True.intro
  | none => exact Spares.assign name hresides.heap hresides.heap.globals hvalue

/-- A method that is read as a value. -/
theorem boundMethod_yields {method : Closure} {receiver : InstanceId}
    (h : outset.Confines machine.heap) (hmethod : outset.HoldsClosure machine.heap method)
    (hreceiver : outset.Holds machine.heap (.instance_ receiver)) :
    Yields outset (Run.allocate fun heap => heap.boundMethod method receiver) machine := by
  obtain ⟨hkeeps, hvalue⟩ := h.boundMethod hmethod hreceiver
  refine (Spares.allocate hkeeps).mono ?_
  rintro _ _ - ⟨rfl, rfl⟩
  exact hvalue

theorem readSuper_yields (node : NodeId) (keyword method : Token)
    (hresides : Resides outset machine) :
    Yields outset (readSuper node keyword method) machine := by
  have hread {distance : Nat} {name : String} {value : Value} {location : Location}
      (hvalue : machine.heap.getAt? machine.environment distance name = some value)
      (hlocation : value.location? = some location) : outset.Holds machine.heap location :=
    hresides.heap.getAt? hresides.environment hvalue location hlocation
  refine (Spares.get hresides.heap).bind ?_
  rintro _ after - ⟨rfl, rfl⟩
  split
  · exact Spares.fail _ _ hresides.heap
  · split
    · next hsuperclass =>
        split
        · next hreceiver =>
            split
            · next found hfound =>
                exact boundMethod_yields hresides.heap
                  (hresides.heap.findMethod? (hread hsuperclass rfl) hfound) (hread hreceiver rfl)
            · exact Spares.fail _ _ hresides.heap
        · exact Spares.fail _ _ hresides.heap
    · exact Spares.fail _ _ hresides.heap

/-! ## Expressions -/

/-- The runner keeps what is not held, and gives what is held. -/
def SparingRunner (outset : Outset) (sub : Runner) : Prop :=
  ∀ task machine, Resides outset machine → Spares outset (sub task) machine (task.Gives outset)

section

variable {sub : Runner} (hsub : SparingRunner outset sub)

include hsub

theorem operand_yields (e : Expr) (hresides : Resides outset machine) :
    Yields outset (sub (.evaluate e)) machine :=
  hsub (.evaluate e) machine hresides

theorem evaluateLogical_yields (left : Expr) (operator : Token) (right : Expr)
    (hresides : Resides outset machine) :
    Yields outset (evaluateLogical sub left operator right) machine := by
  refine (operand_yields hsub left hresides).bind fun value after hspared hvalue => ?_
  refine Proceeds.ite (fun _ => Spares.pure hspared.heap.confined hvalue) fun _ => ?_
  exact operand_yields hsub right (hresides.spared hspared)

theorem evaluateGet_yields (object : Expr) (name : Token) (hresides : Resides outset machine) :
    Yields outset (evaluateGet sub object name) machine := by
  refine (operand_yields hsub object hresides).bind fun value after hspared hvalue => ?_
  have hheap := hspared.heap.confined
  cases value with
  | instance_ receiver =>
      have hreceiver := hvalue (.instance_ receiver) rfl
      refine (Spares.heap hheap).bind ?_
      rintro _ last - ⟨rfl, rfl⟩
      cases hproperty : last.heap.property? receiver name.lexeme with
      | none => exact Spares.fail _ _ hheap
      | some property =>
          have hheld := hheap.property? hreceiver hproperty
          cases property with
          | field value => exact Spares.pure hheap hheld
          | method method => exact boundMethod_yields hheap hheld hreceiver
  | _ => exact Spares.fail _ _ hheap

theorem evaluateSet_yields (object : Expr) (name : Token) (value : Expr)
    (hresides : Resides outset machine) :
    Yields outset (evaluateSet sub object name value) machine := by
  refine (operand_yields hsub object hresides).bind fun target after hspared htarget => ?_
  have hresides' := hresides.spared hspared
  cases target with
  | instance_ receiver =>
      refine (operand_yields hsub value hresides').bind fun value last hspared' hvalue => ?_
      have hreceiver := (htarget (.instance_ receiver) rfl).keeps hspared'.heap
      have hset := hspared'.heap.confined.setField name.lexeme hreceiver hvalue
      refine (Spares.update hset).bind ?_
      rintro _ _ - rfl
      exact Spares.pure hset.confined (hvalue.keeps hset)
  | _ => exact Spares.fail _ _ hspared.heap.confined

/-! ## Calls -/

omit hsub in
theorem bindParameters_keeps {heap : Heap} (h : outset.Confines heap) {place : EnvironmentId}
    (hplace : outset.Holds heap (.environment place)) (parameters : List Token)
    {arguments : List Value} (harguments : ∀ value ∈ arguments, outset.HoldsValue heap value) :
    outset.Keeps heap (bindParameters place parameters arguments heap) := by
  induction parameters generalizing heap arguments with
  | nil => exact .refl h
  | cons parameter rest ih =>
      cases arguments with
      | nil => exact .refl h
      | cons argument arguments =>
          obtain ⟨hargument, hothers⟩ := List.forall_mem_cons.mp harguments
          have hdefine := h.define parameter.lexeme hplace hargument
          exact hdefine.trans (ih hdefine.confined (hplace.keeps hdefine)
            fun value hvalue => (hothers value hvalue).keeps hdefine)

/-- A body runs in an environment that was just taken. -/
theorem callClosure_yields {closure : Closure} {arguments : List Value}
    (hheap : outset.Confines machine.heap) (hclosure : outset.HoldsClosure machine.heap closure)
    (harguments : ∀ value ∈ arguments, outset.HoldsValue machine.heap value) :
    Yields outset (callClosure sub closure arguments) machine := by
  obtain ⟨hchild, hplace⟩ := hheap.child (some (.function closure.declaration)) hclosure
  refine (Spares.allocate hchild).bind ?_
  rintro place after - ⟨rfl, rfl⟩
  have hbound := bindParameters_keeps hchild.confined hplace closure.declaration.parameters
    fun value hvalue => (harguments value hvalue).keeps hchild
  refine (Spares.update hbound).bind ?_
  rintro _ after - rfl
  have hinner := hplace.keeps hbound
  refine (Spares.within (hsub (.executeAll closure.declaration.body) _ ⟨hbound.confined, hinner⟩)
    fun _ _ hgives => hgives).bind fun flow last hspared hflow => ?_
  have hlast := hspared.heap.confined
  refine Proceeds.ite (fun _ => ?_) fun _ => ?_
  -- an initializer gives `this`, which was known before the body ran
  · refine (Spares.heap hlast).bind ?_
    rintro _ final - ⟨rfl, rfl⟩
    refine Spares.pure hlast ?_
    cases hread : final.heap.getAt? closure.environment 0 "this" with
    | some value =>
        exact hlast.getAt? (((hclosure.keeps hchild).keeps hbound).keeps hspared.heap) hread
    | none => exact holdsValue_of_plain rfl
  · cases flow with
    | normal => exact Spares.pure hlast (holdsValue_of_plain rfl)
    | returned value => exact Spares.pure hlast hflow

theorem construct_yields {id : ClassId} {arguments : List Value}
    (hheap : outset.Confines machine.heap)
    (hid : outset.Holds machine.heap (.class_ id))
    (harguments : ∀ value ∈ arguments, outset.HoldsValue machine.heap value) :
    Yields outset (construct sub id arguments) machine := by
  obtain ⟨hadded, hreceiver⟩ := hheap.addInstance hid
  refine (Spares.allocate hadded).bind ?_
  rintro receiver after - ⟨rfl, rfl⟩
  have hvalue {heap : Heap} (h : outset.Holds heap (.instance_ (machine.heap.addInstance id).1)) :
      outset.HoldsValue heap (.instance_ (machine.heap.addInstance id).1) := by
    rintro location ⟨⟩
    exact h
  refine (Spares.heap hadded.confined).bind ?_
  rintro _ _ - ⟨rfl, rfl⟩
  cases hmethod : (machine.heap.addInstance id).2.initializer? id with
  | none => exact Spares.pure hadded.confined (hvalue hreceiver)
  | some method =>
      obtain ⟨hbound, hclosure⟩ := hadded.confined.bindThis
        (hadded.confined.findMethod? (hid.keeps hadded) hmethod) hreceiver
      refine (Spares.allocate hbound).bind ?_
      rintro closure ready - ⟨rfl, rfl⟩
      refine (callClosure_yields hsub hbound.confined hclosure fun value hvalue =>
        ((harguments value hvalue).keeps hadded).keeps hbound).bind fun _ last hspared _ => ?_
      exact Spares.pure hspared.heap.confined
        (hvalue ((hreceiver.keeps hbound).keeps hspared.heap))

/-- What a value is called as is held. -/
def CallableHeld (outset : Outset) (heap : Heap) : Heap.Callable → Prop
  | .native _ => True
  | .closure closure => outset.HoldsClosure heap closure
  | .class_ id => outset.Holds heap (.class_ id)

omit hsub in
theorem callable_held {heap : Heap} (h : outset.Confines heap) {value : Value}
    {callable : Heap.Callable} (hvalue : outset.HoldsValue heap value)
    (hcallable : heap.callable? value = some callable) : CallableHeld outset heap callable := by
  cases value with
  | native native =>
      cases hcallable
      exact True.intro
  | function id =>
      cases hcallable
      exact h.closed (hvalue (.function id) rfl) (.closure id)
  | class_ id =>
      cases hcallable
      exact hvalue (.class_ id) rfl
  | _ => cases hcallable

theorem invoke_yields {callable : Heap.Callable} {arguments : List Value}
    (hheap : outset.Confines machine.heap) (hcallable : CallableHeld outset machine.heap callable)
    (harguments : ∀ value ∈ arguments, outset.HoldsValue machine.heap value) :
    Yields outset (invoke sub callable arguments) machine := by
  cases callable with
  | native native => cases native with
    | clock => exact Proceeds.of_ok rfl ⟨.refl hheap, rfl⟩ (holdsValue_of_plain rfl)
  | closure closure => exact callClosure_yields hsub hheap hcallable harguments
  | class_ id => exact construct_yields hsub hheap hcallable harguments

theorem evaluateCall_yields (callee : Expr) (paren : Token) (arguments : List Expr)
    (hresides : Resides outset machine) :
    Yields outset (evaluateCall sub callee paren arguments) machine := by
  refine (operand_yields hsub callee hresides).bind fun callee middle hspared hcallee => ?_
  have hresides' := hresides.spared hspared
  refine (hsub (.evaluateAll arguments) middle hresides').bind
    fun values last hspared' hvalues => ?_
  have hready := hresides'.spared hspared'
  refine (Spares.heap hready.heap).bind ?_
  rintro _ last - ⟨rfl, rfl⟩
  cases hcallable : last.heap.callable? callee with
  | none => exact Spares.fail _ _ hready.heap
  | some callable =>
      have hheld := callable_held hready.heap (hcallee.keeps hspared'.heap) hcallable
      refine (Spares.heap hready.heap).bind ?_
      rintro _ last - ⟨rfl, rfl⟩
      refine Proceeds.ite (fun _ => Spares.fail _ _ hready.heap) fun _ => ?_
      refine (Spares.get hready.heap).bind ?_
      rintro _ last - ⟨rfl, rfl⟩
      refine Proceeds.ite (fun _ => Spares.fail _ _ hready.heap) fun _ => ?_
      exact Spares.nested (invoke_yields hsub hready.heap hheld hvalues)
        fun _ _ hgives => hgives

theorem evaluate_yields (e : Expr) (hresides : Resides outset machine) :
    Yields outset (evaluate sub e) machine := by
  have hheap := hresides.heap
  cases e with
  | literal id value =>
      exact Spares.pure hheap (holdsValue_of_plain (by cases value <;> rfl))
  | grouping id inner => exact operand_yields hsub inner hresides
  | unary id operator operand =>
      refine (operand_yields hsub operand hresides).bind fun _ _ hspared _ => ?_
      exact (Plain.unary _ _).yields hspared.heap.confined
  | binary id left operator right =>
      refine (operand_yields hsub left hresides).bind fun _ _ hspared _ => ?_
      refine (operand_yields hsub right (hresides.spared hspared)).bind fun _ _ hspared _ => ?_
      exact (Plain.binary _ _ _).yields hspared.heap.confined
  | logical id left operator right => exact evaluateLogical_yields hsub left operator right hresides
  | var id name => exact readVariable_yields id name hresides
  | assign id name value =>
      refine (operand_yields hsub value hresides).bind fun value middle hspared hvalue => ?_
      refine (writeVariable_spares id name (hresides.spared hspared) hvalue).bind ?_
      intro _ _ hwritten _
      exact Spares.pure hwritten.heap.confined (hvalue.keeps hwritten.heap)
  | call id callee paren arguments => exact evaluateCall_yields hsub callee paren arguments hresides
  | get id object name => exact evaluateGet_yields hsub object name hresides
  | set id object name value => exact evaluateSet_yields hsub object name value hresides
  | super_ id keyword method => exact readSuper_yields id keyword method hresides
  | this_ id keyword => exact readVariable_yields id keyword hresides

theorem evaluateAll_spares (es : List Expr) (hresides : Resides outset machine) :
    Spares outset (evaluateAll sub es) machine ((Task.evaluateAll es).Gives outset) := by
  cases es with
  | nil => exact Spares.pure hresides.heap nofun
  | cons e rest =>
      refine (operand_yields hsub e hresides).bind fun value middle hspared hvalue => ?_
      refine (hsub (.evaluateAll rest) middle (hresides.spared hspared)).bind ?_
      intro values after hspared' hvalues
      exact Spares.pure hspared'.heap.confined
        (List.forall_mem_cons.mpr ⟨hvalue.keeps hspared'.heap, hvalues⟩)

/-! ## Statements -/

theorem evaluateOpt_yields (e : Option Expr) (hresides : Resides outset machine) :
    Yields outset (evaluateOpt sub e) machine := by
  cases e with
  | none => exact Spares.pure hresides.heap (holdsValue_of_plain rfl)
  | some e => exact operand_yields hsub e hresides

theorem evaluateSuperclass_spares (name : Token) (superclass : Option Expr)
    (hresides : Resides outset machine) :
    Spares outset (evaluateSuperclass sub name superclass) machine fun superclass after =>
      ∀ id, superclass = some id → outset.Holds after.heap (.class_ id) := by
  cases superclass with
  | none => exact Spares.pure hresides.heap nofun
  | some e =>
      refine (operand_yields hsub e hresides).bind fun value after hspared hvalue => ?_
      cases value with
      | class_ id =>
          refine Spares.pure hspared.heap.confined ?_
          rintro _ ⟨⟩
          exact hvalue (.class_ id) rfl
      | _ => exact Spares.fail _ _ hspared.heap.confined

omit hsub in
theorem methodEnvironment_spares {superclass : Option ClassId} (methods : List FunctionDecl)
    (hresides : Resides outset machine)
    (hsuperclass : ∀ id, superclass = some id → outset.Holds machine.heap (.class_ id)) :
    Spares outset (methodEnvironment superclass methods) machine fun place after =>
      outset.Holds after.heap (.environment place) := by
  refine (Spares.here hresides.heap).bind ?_
  rintro _ machine - ⟨rfl, rfl⟩
  cases superclass with
  | none => exact Spares.pure hresides.heap hresides.environment
  | some id =>
      obtain ⟨hchild, hplace⟩ :=
        hresides.heap.child (some (.superclass methods)) hresides.environment
      refine (Spares.allocate hchild).bind ?_
      rintro place after - ⟨rfl, rfl⟩
      have hvalue : outset.HoldsValue (machine.heap.child machine.environment
          (some (.superclass methods))).2 (.class_ id) := by
        rintro location ⟨⟩
        exact (hsuperclass id rfl).keeps hchild
      have hdefine := hchild.confined.define "super" hplace hvalue
      refine (Spares.update hdefine).bind ?_
      rintro _ after - rfl
      exact Spares.pure hdefine.confined (hplace.keeps hdefine)

theorem executeClass_spares (name : Token) (superclass : Option Expr) (methods : List FunctionDecl)
    (hresides : Resides outset machine) :
    Spares outset (executeClass sub name superclass methods) machine fun _ _ => True := by
  refine (Spares.define name.lexeme hresides (holdsValue_of_plain rfl)).bind ?_
  intro _ declared hspared _
  have hresides := hresides.spared hspared
  refine (evaluateSuperclass_spares hsub name superclass hresides).bind ?_
  intro parent evaluated hspared hparent
  have hresides := hresides.spared hspared
  refine (methodEnvironment_spares methods hresides hparent).bind ?_
  intro place enclosed hspared hplace
  have hresides := hresides.spared hspared
  have hmethods : ∀ key method, (methodTable place methods).get? key = some method →
      outset.HoldsClosure enclosed.heap method := by
    intro key method hmethod
    rw [Outset.HoldsClosure, (methodTable_get? hmethod).2]
    exact hplace
  obtain ⟨hadded, hid⟩ := hresides.heap.addClass
    ⟨name.lexeme, parent, methodTable place methods⟩
    (fun id hid => (hparent id hid).keeps hspared.heap) hmethods
  refine (Spares.allocate hadded).bind ?_
  rintro id after hspared ⟨rfl, rfl⟩
  refine (Spares.here hadded.confined).bind ?_
  rintro _ _ - ⟨rfl, rfl⟩
  refine Spares.assign name hadded.confined (hresides.environment.keeps hadded) ?_
  rintro location ⟨⟩
  exact hid

theorem executeWhile_spares (condition : Expr) (body : Stmt) (hresides : Resides outset machine) :
    Spares outset (executeWhile sub condition body) machine
      ((Task.execute (.while_ condition body)).Gives outset) := by
  refine (operand_yields hsub condition hresides).bind fun value after hspared _ => ?_
  have hresides' := hresides.spared hspared
  refine Proceeds.ite (fun _ => ?_) fun _ => Spares.pure hresides'.heap True.intro
  refine (hsub (.execute body) after hresides').bind fun flow last hspared' hflow => ?_
  cases flow with
  | normal => exact hsub (.execute (.while_ condition body)) last (hresides'.spared hspared')
  | returned value => exact Spares.pure hspared'.heap.confined hflow

theorem execute_spares (statement : Stmt) (hresides : Resides outset machine) :
    Spares outset (execute sub statement) machine ((Task.execute statement).Gives outset) := by
  have hheap := hresides.heap
  cases statement with
  | expression value =>
      refine (operand_yields hsub value hresides).bind fun _ _ hspared _ => ?_
      exact Spares.pure hspared.heap.confined True.intro
  | print value =>
      refine (operand_yields hsub value hresides).bind fun value after hspared _ => ?_
      refine (Spares.heap hspared.heap.confined).bind ?_
      rintro _ after - ⟨rfl, rfl⟩
      refine (Spares.write _ hspared.heap.confined).bind fun _ _ hwritten _ => ?_
      exact Spares.pure hwritten.heap.confined True.intro
  | var name initializer =>
      refine (evaluateOpt_yields hsub initializer hresides).bind
        fun value after hspared hvalue => ?_
      refine (Spares.define _ (hresides.spared hspared) hvalue).bind fun _ _ hdefined _ => ?_
      exact Spares.pure hdefined.heap.confined True.intro
  | block body =>
      refine (Spares.here hheap).bind ?_
      rintro _ machine - ⟨rfl, rfl⟩
      obtain ⟨hchild, hplace⟩ := hheap.child (some (.block body)) hresides.environment
      refine (Spares.allocate hchild).bind ?_
      rintro place after - ⟨rfl, rfl⟩
      exact Spares.within (hsub (.executeAll body) _ ⟨hchild.confined, hplace⟩)
        fun _ _ hgives => hgives
  | function declaration =>
      refine (Spares.here hheap).bind ?_
      rintro _ machine - ⟨rfl, rfl⟩
      obtain ⟨hadded, hid⟩ := hheap.addFunction ⟨declaration, machine.environment, false⟩
        hresides.environment
      refine (Spares.allocate hadded).bind ?_
      rintro id after hspared ⟨rfl, rfl⟩
      refine (Spares.define _ (hresides.spared hspared) ?_).bind fun _ _ hdefined _ => ?_
      · rintro location ⟨⟩
        exact hid
      · exact Spares.pure hdefined.heap.confined True.intro
  | class_ name superclass methods =>
      refine (executeClass_spares hsub name superclass methods hresides).bind ?_
      intro _ _ hspared _
      exact Spares.pure hspared.heap.confined True.intro
  | ifThen condition thenBranch =>
      refine (operand_yields hsub condition hresides).bind fun value after hspared _ => ?_
      have hresides' := hresides.spared hspared
      exact Proceeds.ite (fun _ => hsub (.execute thenBranch) after hresides')
        fun _ => Spares.pure hresides'.heap True.intro
  | ifElse condition thenBranch elseBranch =>
      refine (operand_yields hsub condition hresides).bind fun value after hspared _ => ?_
      have hresides' := hresides.spared hspared
      exact Proceeds.ite (fun _ => hsub (.execute thenBranch) after hresides')
        fun _ => hsub (.execute elseBranch) after hresides'
  | while_ condition body => exact executeWhile_spares hsub condition body hresides
  | return_ keyword value =>
      refine (evaluateOpt_yields hsub value hresides).bind fun value after hspared hvalue => ?_
      exact Spares.pure hspared.heap.confined hvalue

theorem executeAll_spares (statements : List Stmt) (hresides : Resides outset machine) :
    Spares outset (executeAll sub statements) machine
      ((Task.executeAll statements).Gives outset) := by
  cases statements with
  | nil => exact Spares.pure hresides.heap True.intro
  | cons first rest =>
      refine (hsub (.execute first) machine hresides).bind fun flow after hspared hflow => ?_
      cases flow with
      | normal => exact hsub (.executeAll rest) after (hresides.spared hspared)
      | returned value => exact Spares.pure hspared.heap.confined hflow

/-! ## Runs -/

theorem step_spares : SparingRunner outset (fun task => task.step sub) := by
  intro task machine hresides
  cases task with
  | evaluate e => exact evaluate_yields hsub e hresides
  | evaluateAll es => exact evaluateAll_spares hsub es hresides
  | execute statement => exact execute_spares hsub statement hresides
  | executeAll statements => exact executeAll_spares hsub statements hresides

end

theorem run_spares (outset : Outset) (fuel : Nat) : SparingRunner outset (Task.run fuel) := by
  induction fuel with
  | zero => exact fun _ _ hresides => Proceeds.throw (.refl hresides.heap)
  | succ fuel ih => exact step_spares ih

/-- What a call of a value with some arguments begins with: the globals, the value and the
arguments. -/
def callRoots (callee : Value) (arguments : List Value) : List Location :=
  .environment Heap.globals :: (callee :: arguments).filterMap Value.location?

/-- However a call ends, every environment and every instance that was there and cannot be reached
from the callee, the arguments or the globals is as it was. -/
theorem call_spares_unreachable (fuel : Nat) (machine : Machine) {callee : Value}
    {callable : Heap.Callable} (arguments : List Value)
    (hcallable : machine.heap.callable? callee = some callable) :
    let heap := machine.heap
    let later := (Outcome.machine (invoke (Task.run fuel) callable arguments machine)).heap
    let roots := callRoots callee arguments
    (∀ id < heap.environments.size, ¬heap.Reachable roots (.environment id) →
      later.environments[id]? = heap.environments[id]?) ∧
    (∀ id < heap.instances.size, ¬heap.Reachable roots (.instance_ id) →
      later.instances[id]? = heap.instances[id]?) := by
  intro heap later roots
  let outset := Outset.ofRoots heap roots
  have hconfines : outset.Confines heap := Outset.ofRoots_confines heap List.mem_cons_self
  have hknown {value : Value} (hmem : value ∈ callee :: arguments) :
      outset.HoldsValue heap value := fun location hlocation =>
    .inl ⟨location, List.mem_cons_of_mem _ (List.mem_filterMap.mpr ⟨value, hmem, hlocation⟩), .refl⟩
  have hspares := invoke_yields (run_spares outset fuel) hconfines
    (callable_held hconfines (hknown List.mem_cons_self) hcallable)
    fun value hvalue => hknown (List.mem_cons_of_mem _ hvalue)
  have hkeeps : outset.Keeps heap later := hspares.spared.heap
  exact ⟨fun id hid hunknown => hkeeps.environments id ⟨hunknown, Nat.not_le_of_lt hid⟩,
    fun id hid hunknown => hkeeps.instances id ⟨hunknown, Nat.not_le_of_lt hid⟩⟩

/-- A function that assigns a global variable. -/
def globalSetter : FunctionDecl :=
  ⟨⟨.identifier, "f", 1⟩, [],
    [.expression (.assign 1 ⟨.identifier, "a", 1⟩ (.literal 0 (.bool true)))]⟩

/-- A heap with the function and the variable among the globals, and a block with a variable of its
own. -/
def setterHeap : Heap where
  environments := #[⟨⟨[("a", .nil), ("f", .function 0)]⟩, none, none⟩,
    ⟨⟨[("b", .nil)]⟩, some 0, none⟩]
  functions := #[⟨globalSetter, 0, false⟩]
  classes := #[]
  instances := #[]

/-- A machine in the block. -/
def setterMachine : Machine :=
  { Machine.start (fun _ => 0) .unlimited with heap := setterHeap, environment := 1 }

theorem setterHeap_closed (source target : Location)
    (hsource : source = .environment 0 ∨ source = .function 0)
    (href : setterHeap.Refers source target) :
    target = .environment 0 ∨ target = .function 0 := by
  obtain rfl | rfl := hsource
  · cases href with
    | @binding _ name _ _ hread hlocation =>
        by_cases ha : "a" = name
        · subst ha
          cases hread
          cases hlocation
        · by_cases hf : "f" = name
          · subst hf
            cases hread
            cases hlocation
            exact .inr rfl
          · have hnone : setterHeap.binding? 0 name = none := by
              simp [setterHeap, Heap.binding?, Heap.environment, Table.get?, Table.find, ha, hf]
            rw [hnone] at hread
            cases hread
    | enclosing houter => cases houter
  · cases href with
    | closure => exact .inl rfl

theorem call_spares_unreachable_block :
    let later := (Outcome.machine
      (invoke (Task.run 4) (.closure ⟨globalSetter, 0, false⟩) [] setterMachine)).heap
    ¬setterHeap.Reachable (callRoots (.function 0) []) (.environment 1) ∧
      later.binding? Heap.globals "a" = some (.bool true) ∧
      later.environments[1]? = setterHeap.environments[1]? := by
  have hunknown : ¬setterHeap.Reachable (callRoots (.function 0) []) (.environment 1) := by
    intro hreachable
    have hroots : ∀ root ∈ callRoots (.function 0) [],
        root = .environment 0 ∨ root = .function 0 := by
      decide
    obtain hfound | hfound := hreachable.of_closed hroots setterHeap_closed <;> cases hfound
  have hcallable : setterMachine.heap.callable? (.function 0) =
      some (.closure ⟨globalSetter, 0, false⟩) := by rfl
  exact ⟨hunknown, by rfl,
    (call_spares_unreachable 4 setterMachine [] hcallable).1 1 (by decide) hunknown⟩

end Lox.Run
