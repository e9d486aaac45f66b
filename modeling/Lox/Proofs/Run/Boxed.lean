import Lox.Proofs.Run.Aligned

/-!
# Constructs with extra blocks

Every construct does the same with extra blocks inside it, one lemma for each. So do whole runs,
once there is fuel for the extra blocks.
-/

namespace Lox.Run

open Scope (Distances)

variable {contrast : Contrast} {layers : Layers} {places : Places}
  {machine machine' : Machine}

/-! ## Changes of both heaps -/

/-- Parameters are bound in both heaps. -/
theorem bindParameters_boxed {demands : Demands} {place : EnvironmentId} (parameters : List Token)
    (arguments : List Value) {heap heap' : Heap} (h : heap.Boxed demands places heap')
    (hplace : place < heap.environments.size) :
    heap.Onwards heap' places (bindParameters place parameters arguments heap)
        (bindParameters (places place) parameters arguments heap') places ∧
      (bindParameters place parameters arguments heap).Boxed demands places
        (bindParameters (places place) parameters arguments heap') := by
  induction parameters generalizing arguments heap heap' with
  | nil => exact ⟨.refl _ _ _, h⟩
  | cons parameter rest ih =>
      cases arguments with
      | nil => exact ⟨.refl _ _ _, h⟩
      | cons argument arguments =>
          have hdefined := h.define hplace parameter.lexeme argument
          obtain ⟨honwards, hbound⟩ := ih arguments hdefined (by rwa [Heap.size_define])
          exact ⟨(Heap.Onwards.define heap heap' places place (places place) _ _).trans honwards,
            hbound⟩

/-- Methods with extra blocks make tables of such. -/
theorem methodTable_boxed {demands : Demands} {heap heap' : Heap} {place place' : EnvironmentId}
    (haround : heap.Around heap' places layers place place') {methods methods' : List FunctionDecl}
    (hmethods : FunctionDecl.BoxedAll demands (.both :: layers) methods methods') (name : String) :
    Option.Rel (Closure.BoxedMethod demands places heap heap')
      ((methodTable place methods).get? name) ((methodTable place' methods').get? name) := by
  refine methodTable_rel ?_ name
  induction methods generalizing methods' with
  | nil =>
      cases hmethods
      exact .nil
  | cons method rest ih =>
      cases hmethods with
      | cons hmethod hrest =>
          exact .cons ⟨congrArg Token.lexeme hmethod.name, hmethod.isInitializer, layers,
            Layers.shared_both _, hmethod, haround⟩ (ih hrest)

/-! ## Operators -/

section

variable (hmachine : machine.Boxed contrast places layers machine')

include hmachine

theorem unary_aligned (operator : Token) (operand : Value) :
    Aligned contrast layers places machine machine' (unary operator operand)
      (unary operator operand) Same := by
  unfold unary
  split
  · exact .pure hmachine rfl
  · exact .fail hmachine _ _
  · exact .pure hmachine rfl
  · exact .fail hmachine _ _

theorem arithmetic_aligned (operator : Token) (a b : Float) :
    Aligned contrast layers places machine machine' (arithmetic operator a b)
      (arithmetic operator a b) Same := by
  unfold arithmetic
  split <;> first | exact .pure hmachine rfl | exact .fail hmachine _ _

theorem binary_aligned (operator : Token) (left right : Value) :
    Aligned contrast layers places machine machine' (binary operator left right)
      (binary operator left right) Same := by
  unfold binary
  split
  · unfold add
    split <;> first | exact .pure hmachine rfl | exact .fail hmachine _ _
  · exact .pure hmachine rfl
  · exact .pure hmachine rfl
  · split
    · exact arithmetic_aligned hmachine _ _ _
    · exact .fail hmachine _ _

/-! ## Names -/

/-- A global name is read. -/
theorem readGlobal_aligned (name : Token) :
    Aligned contrast layers places machine machine' (lift (machine.heap.get Heap.globals name))
      (lift (machine'.heap.get Heap.globals name)) Same := by
  rw [Heap.get, Heap.get, get?_of_outermost hmachine.heap.outermost,
    get?_of_outermost hmachine.heap.outermost', hmachine.heap.binding?_globals]
  cases machine.heap.binding? Heap.globals name.lexeme with
  | some value => exact .pure hmachine rfl
  | none => exact .throw hmachine _

theorem readVariable_aligned {kind : UseKind} {node : NodeId} {name : Token}
    (huse : contrast.demands.use layers ⟨kind, name, node⟩) :
    Aligned contrast layers places machine machine' (readVariable node name)
      (readVariable node name) Same := by
  refine (Aligned.get hmachine).bind ?_
  rintro places _ _ machine machine' - ⟨rfl, rfl, rfl, rfl, rfl⟩
  rw [hmachine.widened huse]
  cases machine.distances[node]? with
  | none => exact readGlobal_aligned hmachine name
  | some distance =>
      simp only [Option.map_some, hmachine.heap.getAt? hmachine.around]
      cases machine.heap.getAt? machine.environment distance name.lexeme with
      | some value => exact .pure hmachine rfl
      | none => exact .fail hmachine _ _

/-- A name that is bound in an environment of both machines is bound anew there. -/
theorem assign_aligned {place : EnvironmentId} (hplace : place < machine.heap.environments.size)
    {name : Token} (hbound : (machine.heap.binding? place name.lexeme).isSome) (value : Value) :
    Aligned contrast layers places machine machine' (assign place name value)
      (assign (places place) name value) Same := by
  have hbound' : (machine'.heap.binding? (places place) name.lexeme).isSome := by
    rwa [hmachine.heap.binding place hplace]
  refine (Aligned.heap hmachine).bind ?_
  rintro _ _ _ _ _ - ⟨rfl, rfl, rfl, rfl, rfl⟩
  simp only [binder?_of_bound hbound, binder?_of_bound hbound']
  exact (Aligned.bound hmachine hplace name.lexeme value).mono fun _ _ _ _ _ _ => rfl

theorem assignGlobal_aligned (name : Token) (value : Value) :
    Aligned contrast layers places machine machine' (assign Heap.globals name value)
      (assign Heap.globals name value) Same := by
  by_cases hbound : (machine.heap.binding? Heap.globals name.lexeme).isSome
  · have hassigned : Aligned contrast layers places machine machine'
        (assign Heap.globals name value) (assign (places Heap.globals) name value) Same :=
      assign_aligned hmachine hmachine.heap.nonempty hbound value
    rwa [hmachine.heap.globals] at hassigned
  · have hbound' : ¬(machine'.heap.binding? Heap.globals name.lexeme).isSome := by
      rwa [hmachine.heap.binding?_globals]
    refine (Aligned.heap hmachine).bind ?_
    rintro _ _ _ _ _ - ⟨rfl, rfl, rfl, rfl, rfl⟩
    simp only [binder?_of_outermost hmachine.heap.outermost,
      binder?_of_outermost hmachine.heap.outermost', hbound, hbound', if_false, Bool.false_eq_true]
    exact .throw hmachine _

theorem writeVariable_aligned {node : NodeId} {name : Token}
    (huse : contrast.demands.use layers ⟨.assign, name, node⟩) (value : Value) :
    Aligned contrast layers places machine machine' (writeVariable node name value)
      (writeVariable node name value) Same := by
  refine (Aligned.get hmachine).bind ?_
  rintro places _ _ machine machine' - ⟨rfl, rfl, rfl, rfl, rfl⟩
  rw [hmachine.widened huse]
  cases machine.distances[node]? with
  | none => exact assignGlobal_aligned hmachine name value
  | some distance =>
      have hassigned := hmachine.heap.assignAt hmachine.around distance name.lexeme value
      exact (Aligned.update hmachine (.define _ _ _ _ _ _ _) hassigned).mono fun _ _ _ _ _ _ => rfl

/-- A method that was found is bound to an instance. -/
theorem boundMethod_aligned {method method' : Closure}
    (hmethod : method.BoxedMethod contrast.demands places machine.heap machine'.heap method')
    (receiver : InstanceId) :
    Aligned contrast layers places machine machine'
      (allocate fun heap => heap.boundMethod method receiver)
      (allocate fun heap => heap.boundMethod method' receiver) Same := by
  obtain ⟨later, honwards, hbound, hsame⟩ := hmachine.heap.boundMethod hmethod receiver
  refine (Aligned.allocate hmachine honwards hbound).mono ?_
  rintro _ _ _ _ _ ⟨rfl, rfl, rfl, -⟩
  exact hsame.symm

theorem readSuper_aligned {node : NodeId} {keyword : Token}
    (huse : contrast.demands.use layers ⟨.super_, keyword, node⟩) (method : Token) :
    Aligned contrast layers places machine machine' (readSuper node keyword method)
      (readSuper node keyword method) Same := by
  refine (Aligned.get hmachine).bind ?_
  rintro places _ _ machine machine' - ⟨rfl, rfl, rfl, rfl, rfl⟩
  rw [hmachine.widened huse]
  cases hdistance : machine.distances[node]? with
  | none => exact .fail hmachine _ _
  | some distance =>
      have hreceiver : layers.widen (distance - 1) = layers.widen distance - 1 :=
        huse.receiver rfl distance (by rw [← hmachine.distances, hdistance])
      simp only [Option.map_some, ← hreceiver, hmachine.heap.getAt? hmachine.around]
      split
      · next superclass _ =>
          split
          · have hfound := hmachine.heap.findMethod? superclass method.lexeme
            generalize machine.heap.findMethod? superclass method.lexeme = found at hfound ⊢
            generalize machine'.heap.findMethod? superclass method.lexeme = found' at hfound ⊢
            cases hfound with
            | none => exact .fail hmachine _ _
            | some hmethod => exact boundMethod_aligned hmachine hmethod _
          · exact .fail hmachine _ _
      · exact .fail hmachine _ _

end

/-! ## Expressions -/

section

variable {sub sub' : Runner} (hsub : RunsAligned contrast sub sub')
  (hmachine : machine.Boxed contrast places layers machine')

include hsub hmachine

/-- Both evaluate an expression. -/
theorem evaluatePart_aligned {e : Expr} (huses : contrast.demands.Uses layers e.uses) :
    Aligned contrast layers places machine machine' (sub (.evaluate e)) (sub' (.evaluate e))
      fun _ (a a' : Value) _ _ => a = a' :=
  hsub _ _ _ _ _ _ (.evaluate huses) hmachine

/-- Both evaluate expressions. -/
theorem evaluateParts_aligned {es : List Expr}
    (huses : contrast.demands.Uses layers (Expr.usesAll es)) :
    Aligned contrast layers places machine machine' (sub (.evaluateAll es))
      (sub' (.evaluateAll es)) fun _ (a a' : List Value) _ _ => a = a' :=
  hsub _ _ _ _ _ _ (.evaluateAll huses) hmachine

/-- Both execute a statement. -/
theorem executePart_aligned {s s' : Stmt} (hs : Stmt.Boxed contrast.demands layers s s')
    (hshared : s.declares ≠ [] → layers.Shared) :
    Aligned contrast layers places machine machine' (sub (.execute s)) (sub' (.execute s'))
      fun _ (a a' : Flow) _ _ => a = a' :=
  hsub _ _ _ _ _ _ (.execute hs hshared) hmachine

/-- Both execute statements. -/
theorem executeParts_aligned {statements statements' : List Stmt}
    (hstatements : Stmt.BoxedAll contrast.demands layers statements statements')
    (hshared : layers.Shared) :
    Aligned contrast layers places machine machine' (sub (.executeAll statements))
      (sub' (.executeAll statements')) fun _ (a a' : Flow) _ _ => a = a' :=
  hsub _ _ _ _ _ _ (.executeAll hstatements hshared) hmachine

theorem evaluateLogical_aligned {left right : Expr} (operator : Token)
    (huses : contrast.demands.Uses layers (left.uses ++ right.uses)) :
    Aligned contrast layers places machine machine' (evaluateLogical sub left operator right)
      (evaluateLogical sub' left operator right) Same := by
  obtain ⟨hleft, hright⟩ := List.forall_mem_append.mp huses
  refine (evaluatePart_aligned hsub hmachine hleft).bind ?_
  rintro _ value _ _ _ hadvance rfl
  cases if operator.category = .keyword .or_ then value.isTruthy else !value.isTruthy with
  | true => exact .pure hadvance.boxed rfl
  | false => exact evaluatePart_aligned hsub hadvance.boxed hright

theorem evaluateGet_aligned {object : Expr} (name : Token)
    (huses : contrast.demands.Uses layers object.uses) :
    Aligned contrast layers places machine machine' (evaluateGet sub object name)
      (evaluateGet sub' object name) Same := by
  refine (evaluatePart_aligned hsub hmachine huses).bind ?_
  rintro _ value _ _ _ hadvance rfl
  cases value with
  | instance_ receiver =>
      refine (Aligned.heap hadvance.boxed).bind ?_
      rintro _ _ _ after after' hread ⟨rfl, rfl, rfl, rfl, rfl⟩
      have hproperty := hread.boxed.heap.property? receiver name.lexeme
      generalize after.heap.property? receiver name.lexeme = property at hproperty ⊢
      generalize after'.heap.property? receiver name.lexeme = property' at hproperty ⊢
      cases hproperty with
      | none => exact .fail hread.boxed _ _
      | some hfound =>
          cases hfound with
          | field value => exact .pure hread.boxed rfl
          | method hmethod => exact boundMethod_aligned hread.boxed hmethod receiver
  | _ => exact .fail hadvance.boxed _ _

theorem evaluateSet_aligned {object value : Expr} (name : Token)
    (huses : contrast.demands.Uses layers (object.uses ++ value.uses)) :
    Aligned contrast layers places machine machine' (evaluateSet sub object name value)
      (evaluateSet sub' object name value) Same := by
  obtain ⟨hobject, hvalue⟩ := List.forall_mem_append.mp huses
  refine (evaluatePart_aligned hsub hmachine hobject).bind ?_
  rintro _ target _ _ _ hadvance rfl
  cases target with
  | instance_ receiver =>
      refine (evaluatePart_aligned hsub hadvance.boxed hvalue).bind ?_
      rintro _ value _ _ _ hadvance rfl
      refine (Aligned.update hadvance.boxed (.of_environments rfl rfl)
        (hadvance.boxed.heap.setField receiver name.lexeme value)).bind ?_
      rintro _ _ _ _ _ hstored -
      exact .pure hstored.boxed rfl
  | _ => exact .fail hadvance.boxed _ _

/-! ## Calls -/

theorem callClosure_aligned {closure closure' : Closure}
    (hclosure : closure.Boxed contrast.demands [] places machine.heap machine'.heap closure')
    (arguments : List Value) :
    Aligned contrast layers places machine machine' (callClosure sub closure arguments)
      (callClosure sub' closure' arguments) Same := by
  obtain ⟨hinitializer, around, hshared, hdeclared, haround⟩ := hclosure
  let region := some (Region.function closure.declaration)
  let region' := some (Region.function closure'.declaration)
  refine (Aligned.allocate hmachine
    (.child machine.heap machine'.heap places closure.environment closure'.environment region region')
    (hmachine.heap.child closure.environment closure'.environment region region')).bind ?_
  rintro entered inner inner' _ _ hentered ⟨rfl, rfl, rfl, rfl, rfl⟩
  have hinside := haround.child region region'
  have hplace : (machine'.heap.child closure'.environment region').1 =
      Function.update places machine.heap.environments.size machine'.heap.environments.size
        (machine.heap.child closure.environment region).1 :=
    hinside.place_eq (Layers.shared_both _) hentered.boxed.heap.globals
  obtain ⟨honwards, hparameters⟩ := bindParameters_boxed closure.declaration.parameters arguments
    hentered.boxed.heap (hinside.lt_size hentered.boxed.heap.nonempty)
  rw [← hplace] at honwards hparameters
  rw [hdeclared.parameters]
  refine (Aligned.update hentered.boxed honwards hparameters).bind ?_
  rintro _ _ _ _ _ hbound ⟨rfl, rfl, rfl⟩
  refine (Aligned.within hbound.boxed (hinside.onwards honwards) fun hstart =>
    executeParts_aligned hsub hstart hdeclared.body (Layers.shared_both _)).bind ?_
  rintro later flow _ _ _ hfollows rfl
  rw [hinitializer]
  split
  · refine (Aligned.heap hfollows.boxed).bind ?_
    rintro _ _ _ after after' hread ⟨rfl, rfl, rfl, rfl, rfl⟩
    have houter := haround.onwards ((hentered.onwards.trans hbound.onwards).trans hfollows.onwards)
    have hthis := hread.boxed.heap.getAt? houter 0 "this"
    have hinnermost : around.widen 0 = 0 := Layers.Shared.widen_zero hshared
    rw [hinnermost] at hthis
    rw [hthis]
    exact .pure hread.boxed rfl
  · cases flow with
    | normal => exact .pure hfollows.boxed rfl
    | returned value => exact .pure hfollows.boxed rfl

theorem construct_aligned (id : ClassId) (arguments : List Value) :
    Aligned contrast layers places machine machine' (construct sub id arguments)
      (construct sub' id arguments) Same := by
  refine (Aligned.allocate hmachine (.of_environments rfl rfl)
    (hmachine.heap.addInstance id)).bind ?_
  rintro _ receiver receiver' _ _ hadded ⟨rfl, hreceiver, hreceiver', -⟩
  have hsame : receiver' = receiver := by
    rw [hreceiver', hreceiver]
    exact congrArg Array.size hmachine.heap.instances
  subst hsame
  refine (Aligned.heap hadded.boxed).bind ?_
  rintro _ _ _ after after' hread ⟨rfl, rfl, rfl, rfl, rfl⟩
  have hfound := hread.boxed.heap.findMethod? id "init"
  simp only [Heap.initializer?]
  generalize after.heap.findMethod? id "init" = found at hfound ⊢
  generalize after'.heap.findMethod? id "init" = found' at hfound ⊢
  cases hfound with
  | none => exact .pure hread.boxed rfl
  | some hmethod =>
      obtain ⟨later, honwards, hbound, hclosure⟩ := hread.boxed.heap.bindThis hmethod receiver'
      refine (Aligned.allocate hread.boxed honwards hbound).bind ?_
      rintro _ _ _ _ _ hbound ⟨rfl, rfl, rfl, rfl, rfl⟩
      refine (callClosure_aligned hsub hbound.boxed hclosure arguments).bind ?_
      rintro _ _ _ _ _ hcalled -
      exact .pure hcalled.boxed rfl

theorem invoke_aligned {callee callee' : Heap.Callable}
    (hcallee :
      Heap.Boxed.Callable contrast.demands places machine.heap machine'.heap callee callee')
    (arguments : List Value) :
    Aligned contrast layers places machine machine' (invoke sub callee arguments)
      (invoke sub' callee' arguments) Same := by
  cases hcallee with
  | native native => cases native with
    | clock =>
        have hclock : Aligned contrast layers places machine machine'
            (readClock >>= fun time => pure (Value.number time))
            (readClock >>= fun time => pure (Value.number time)) Same := by
          refine (Aligned.readClock hmachine).bind ?_
          rintro _ time _ _ _ hread rfl
          exact .pure hread.boxed rfl
        exact hclock
  | closure hclosure => exact callClosure_aligned hsub hmachine hclosure arguments
  | class_ id => exact construct_aligned hsub hmachine id arguments

theorem evaluateCall_aligned {callee : Expr} (paren : Token) {arguments : List Expr}
    (huses : contrast.demands.Uses layers (callee.uses ++ Expr.usesAll arguments)) :
    Aligned contrast layers places machine machine' (evaluateCall sub callee paren arguments)
      (evaluateCall sub' callee paren arguments) Same := by
  obtain ⟨hcallee, harguments⟩ := List.forall_mem_append.mp huses
  refine (evaluatePart_aligned hsub hmachine hcallee).bind ?_
  rintro _ value _ _ _ hadvance rfl
  refine (evaluateParts_aligned hsub hadvance.boxed harguments).bind ?_
  rintro _ values _ _ _ hadvance rfl
  refine (Aligned.heap hadvance.boxed).bind ?_
  rintro _ _ _ after after' hread ⟨rfl, rfl, rfl, rfl, rfl⟩
  have hcallable := hread.boxed.heap.callable? value
  generalize after.heap.callable? value = callable at hcallable ⊢
  generalize after'.heap.callable? value = callable' at hcallable ⊢
  cases hcallable with
  | none => exact .fail hread.boxed _ _
  | some hcallable =>
      refine (Aligned.heap hread.boxed).bind ?_
      rintro _ _ _ _ _ hread ⟨rfl, rfl, rfl, rfl, rfl⟩
      rw [hread.boxed.heap.arity hcallable]
      split
      · exact .fail hread.boxed _ _
      · refine (Aligned.get hread.boxed).bind ?_
        rintro _ _ _ _ _ hread ⟨rfl, rfl, rfl, rfl, rfl⟩
        rw [hread.boxed.callDepth]
        split
        · exact .fail hread.boxed _ _
        · exact .nested hread.boxed fun hinside => invoke_aligned hsub hinside hcallable values

theorem evaluate_aligned {e : Expr} (huses : contrast.demands.Uses layers e.uses) :
    Aligned contrast layers places machine machine' (evaluate sub e) (evaluate sub' e) Same := by
  cases e with
  | literal id value => exact .pure hmachine rfl
  | grouping id inner =>
      have hinner : contrast.demands.Uses layers inner.uses := huses
      exact evaluatePart_aligned hsub hmachine hinner
  | unary id operator operand =>
      have hoperand : contrast.demands.Uses layers operand.uses := huses
      refine (evaluatePart_aligned hsub hmachine hoperand).bind ?_
      rintro _ value _ _ _ hadvance rfl
      exact unary_aligned hadvance.boxed operator value
  | binary id left operator right =>
      obtain ⟨hleft, hright⟩ := List.forall_mem_append.mp huses
      refine (evaluatePart_aligned hsub hmachine hleft).bind ?_
      rintro _ a _ _ _ hadvance rfl
      refine (evaluatePart_aligned hsub hadvance.boxed hright).bind ?_
      rintro _ b _ _ _ hadvance rfl
      exact binary_aligned hadvance.boxed operator a b
  | logical id left operator right => exact evaluateLogical_aligned hsub hmachine operator huses
  | var id name => exact readVariable_aligned hmachine (huses _ List.mem_cons_self)
  | assign id name value =>
      obtain ⟨hname, hvalue⟩ := List.forall_mem_cons.mp huses
      refine (evaluatePart_aligned hsub hmachine hvalue).bind ?_
      rintro _ value _ _ _ hadvance rfl
      refine (writeVariable_aligned hadvance.boxed hname value).bind ?_
      rintro _ _ _ _ _ hwritten -
      exact .pure hwritten.boxed rfl
  | call id callee paren arguments => exact evaluateCall_aligned hsub hmachine paren huses
  | get id object name => exact evaluateGet_aligned hsub hmachine name huses
  | set id object name value => exact evaluateSet_aligned hsub hmachine name huses
  | super_ id keyword method =>
      exact readSuper_aligned hmachine (huses _ List.mem_cons_self) method
  | this_ id keyword => exact readVariable_aligned hmachine (huses _ List.mem_cons_self)

theorem evaluateAll_aligned {es : List Expr}
    (huses : contrast.demands.Uses layers (Expr.usesAll es)) :
    Aligned contrast layers places machine machine' (evaluateAll sub es) (evaluateAll sub' es)
      Same := by
  cases es with
  | nil => exact .pure hmachine rfl
  | cons e rest =>
      obtain ⟨he, hrest⟩ := List.forall_mem_append.mp huses
      refine (evaluatePart_aligned hsub hmachine he).bind ?_
      rintro _ value _ _ _ hadvance rfl
      refine (evaluateParts_aligned hsub hadvance.boxed hrest).bind ?_
      rintro _ values _ _ _ hadvance rfl
      exact .pure hadvance.boxed rfl

/-! ## Statements -/

theorem evaluateOpt_aligned {e : Option Expr}
    (huses : contrast.demands.Uses layers (Expr.usesOpt e)) :
    Aligned contrast layers places machine machine' (evaluateOpt sub e) (evaluateOpt sub' e)
      Same := by
  cases e with
  | none => exact .pure hmachine rfl
  | some e =>
      have hvalue : contrast.demands.Uses layers e.uses := huses
      exact evaluatePart_aligned hsub hmachine hvalue

/-- A superclass is a class if it is given at all. -/
theorem evaluateSuperclass_aligned (name : Token) {superclass : Option Expr}
    (huses : contrast.demands.Uses layers (Expr.usesOpt superclass)) :
    Aligned contrast layers places machine machine' (evaluateSuperclass sub name superclass)
      (evaluateSuperclass sub' name superclass) fun _ a a' _ _ =>
        a = a' ∧ a.isSome = superclass.isSome := by
  cases superclass with
  | none => exact .pure hmachine ⟨rfl, rfl⟩
  | some e =>
      have hvalue : contrast.demands.Uses layers e.uses := huses
      refine (evaluatePart_aligned hsub hmachine hvalue).bind ?_
      rintro _ value _ _ _ hadvance rfl
      cases value with
      | class_ id => exact .pure hadvance.boxed ⟨rfl, rfl⟩
      | _ => exact .fail hadvance.boxed _ _

omit hsub in
/-- The environment of the methods of a class. -/
theorem methodEnvironment_aligned {superclass : Option ClassId} {expression : Option Expr}
    (hsome : superclass.isSome = expression.isSome) (methods methods' : List FunctionDecl) :
    Aligned contrast layers places machine machine' (methodEnvironment superclass methods)
      (methodEnvironment superclass methods') fun later place place' after after' =>
        after.heap.Around after'.heap later (layers.methods expression) place place' := by
  refine (Aligned.here hmachine).bind ?_
  rintro _ _ _ _ _ hread ⟨rfl, rfl, rfl, rfl, rfl⟩
  rw [Layers.methods, ← hsome]
  cases superclass with
  | none => exact .pure hmachine hmachine.around
  | some id =>
      let region := some (Region.superclass methods)
      let region' := some (Region.superclass methods')
      obtain ⟨later, honwards, hbound, hinside⟩ :=
        hmachine.heap.bindChild hmachine.around region region' "super" (.class_ id)
      exact .give ⟨later, Aligned.withHeap hmachine honwards hbound, hinside⟩

theorem executeClass_aligned (hshared : layers.Shared) (name : Token) {superclass : Option Expr}
    {methods methods' : List FunctionDecl}
    (huses : contrast.demands.Uses layers (Expr.usesOpt superclass))
    (hmethods : FunctionDecl.BoxedAll contrast.demands (.both :: layers.methods superclass) methods
      methods') :
    Aligned contrast layers places machine machine' (executeClass sub name superclass methods)
      (executeClass sub' name superclass methods') Same := by
  refine (Aligned.define hmachine hshared name.lexeme .nil).bind ?_
  rintro _ _ _ defined _ hdefined ⟨rfl, hafter⟩
  -- the name is bound from now on, so that the class goes where the name was bound
  have hbound : (defined.heap.binding? defined.environment name.lexeme).isSome := by
    rw [hafter, Heap.binding?_define_self
      (hmachine.around.lt_size hmachine.heap.nonempty)]
    rfl
  refine (evaluateSuperclass_aligned hsub hdefined.boxed name huses).bind ?_
  rintro _ id _ _ _ hevaluated ⟨rfl, hsome⟩
  refine (methodEnvironment_aligned hevaluated.boxed hsome methods methods').bind ?_
  rintro later place place' entered entered' hentered haround
  have hentry : Class.Boxed contrast.demands later entered.heap entered'.heap
      ⟨name.lexeme, id, methodTable place methods⟩
      ⟨name.lexeme, id, methodTable place' methods'⟩ :=
    ⟨rfl, rfl, methodTable_boxed haround hmethods⟩
  refine (Aligned.allocate hentered.boxed (.of_environments rfl rfl)
    (hentered.boxed.heap.addClass hentry)).bind ?_
  rintro _ classId classId' _ _ hadded ⟨rfl, hclass, hclass', -⟩
  have hsame : classId' = classId := by
    rw [hclass', hclass]
    exact hentered.boxed.heap.classCount
  subst hsame
  refine (Aligned.here hadded.boxed).bind ?_
  rintro _ _ _ last _ hlast ⟨rfl, rfl, rfl, rfl, rfl⟩
  have hplace : last.environment = defined.environment :=
    hadded.environment.trans (hentered.environment.trans hevaluated.environment)
  have hgrows := ((hevaluated.trans hentered).trans hadded).onwards.grows
  rw [hlast.boxed.around.place_eq hshared hlast.boxed.heap.globals]
  refine assign_aligned hlast.boxed (hlast.boxed.around.lt_size hlast.boxed.heap.nonempty) ?_ _
  rw [hplace]
  exact hgrows.bound _ _ hbound

theorem executeWhile_aligned {condition : Expr} {body body' : Stmt}
    (huses : contrast.demands.Uses layers condition.uses)
    (hbody : Stmt.Boxed contrast.demands layers body body')
    (hshared : body.declares ≠ [] → layers.Shared) :
    Aligned contrast layers places machine machine' (executeWhile sub condition body)
      (executeWhile sub' condition body') Same := by
  refine (evaluatePart_aligned hsub hmachine huses).bind ?_
  rintro _ value _ _ _ hadvance rfl
  cases value.isTruthy with
  | false => exact .pure hadvance.boxed rfl
  | true =>
      refine (executePart_aligned hsub hadvance.boxed hbody hshared).bind ?_
      rintro _ flow _ _ _ hadvance rfl
      cases flow with
      | normal =>
          exact executePart_aligned hsub hadvance.boxed (.bare (.while_ huses hbody)) hshared
      | returned value => exact .pure hadvance.boxed rfl

theorem execute_aligned {s s' : Stmt} (hs : Stmt.BoxedInside contrast.demands layers s s')
    (hshared : s.declares ≠ [] → layers.Shared) :
    Aligned contrast layers places machine machine' (execute sub s) (execute sub' s') Same := by
  cases hs with
  | expression huses =>
      refine (evaluatePart_aligned hsub hmachine huses).bind ?_
      rintro _ value _ _ _ hadvance rfl
      exact .pure hadvance.boxed rfl
  | print huses =>
      refine (evaluatePart_aligned hsub hmachine huses).bind ?_
      rintro _ value _ _ _ hadvance rfl
      refine (Aligned.heap hadvance.boxed).bind ?_
      rintro _ _ _ _ _ hread ⟨rfl, rfl, rfl, rfl, rfl⟩
      rw [hread.boxed.heap.text]
      refine (Aligned.settle hread.boxed _).bind ?_
      rintro _ _ _ _ _ hwritten -
      exact .pure hwritten.boxed rfl
  | var name huses =>
      refine (evaluateOpt_aligned hsub hmachine huses).bind ?_
      rintro _ value _ _ _ hadvance rfl
      refine (Aligned.define hadvance.boxed (hshared (List.cons_ne_nil _ _)) name.lexeme
        value).bind ?_
      rintro _ _ _ _ _ hdefined -
      exact .pure hdefined.boxed rfl
  | @block _ body body' hbody =>
      let region := some (Region.block body)
      let region' := some (Region.block body')
      refine (Aligned.here hmachine).bind ?_
      rintro _ _ _ machine machine' hread ⟨rfl, rfl, rfl, rfl, rfl⟩
      refine (Aligned.allocate hmachine
        (.child machine.heap machine'.heap _ machine.environment machine'.environment region region')
        (hmachine.heap.child machine.environment machine'.environment region region')).bind ?_
      rintro _ _ _ _ _ hentered ⟨rfl, rfl, rfl, rfl, rfl⟩
      exact .within hentered.boxed (hmachine.around.child region region') fun hstart =>
        executeParts_aligned hsub hstart hbody (Layers.shared_both _)
  | @function _ declaration declaration' hdeclaration =>
      have hname : layers.Shared := hshared (List.cons_ne_nil _ _)
      refine (Aligned.here hmachine).bind ?_
      rintro _ _ _ machine machine' hread ⟨rfl, rfl, rfl, rfl, rfl⟩
      have hclosure : Closure.Boxed contrast.demands [] _ machine.heap machine'.heap
          ⟨declaration, machine.environment, false⟩ ⟨declaration', machine'.environment, false⟩ :=
        ⟨rfl, layers, hname, hdeclaration, hmachine.around⟩
      refine (Aligned.allocate hmachine (.of_environments rfl rfl)
        (hmachine.heap.addFunction hclosure)).bind ?_
      rintro _ id id' _ _ hadded ⟨rfl, hid, hid', -⟩
      have hsame : id' = id := by
        rw [hid', hid]
        exact hmachine.heap.functionCount
      subst hsame
      rw [hdeclaration.name]
      refine (Aligned.define hadded.boxed hname _ _).bind ?_
      rintro _ _ _ _ _ hdefined -
      exact .pure hdefined.boxed rfl
  | class_ name huses hmethods =>
      refine (executeClass_aligned hsub hmachine (hshared (List.cons_ne_nil _ _)) name huses
        hmethods).bind ?_
      rintro _ _ _ _ _ hadvance -
      exact .pure hadvance.boxed rfl
  | ifThen huses hthen =>
      refine (evaluatePart_aligned hsub hmachine huses).bind ?_
      rintro _ value _ _ _ hadvance rfl
      cases value.isTruthy with
      | true => exact executePart_aligned hsub hadvance.boxed hthen hshared
      | false => exact .pure hadvance.boxed rfl
  | ifElse huses hthen helse =>
      refine (evaluatePart_aligned hsub hmachine huses).bind ?_
      rintro _ value _ _ _ hadvance rfl
      cases value.isTruthy with
      | true =>
          exact executePart_aligned hsub hadvance.boxed hthen fun hsome =>
            hshared (List.append_ne_nil_of_left_ne_nil hsome _)
      | false =>
          exact executePart_aligned hsub hadvance.boxed helse fun hsome =>
            hshared (List.append_ne_nil_of_right_ne_nil _ hsome)
  | while_ huses hbody => exact executeWhile_aligned hsub hmachine huses hbody hshared
  | return_ keyword huses =>
      refine (evaluateOpt_aligned hsub hmachine huses).bind ?_
      rintro _ value _ _ _ hadvance rfl
      exact .pure hadvance.boxed rfl

theorem executeAll_aligned {statements statements' : List Stmt}
    (hstatements : Stmt.BoxedAll contrast.demands layers statements statements')
    (hshared : layers.Shared) :
    Aligned contrast layers places machine machine' (executeAll sub statements)
      (executeAll sub' statements') Same := by
  cases hstatements with
  | nil => exact .pure hmachine rfl
  | cons hs hrest =>
      refine (executePart_aligned hsub hmachine hs fun _ => hshared).bind ?_
      rintro _ flow _ _ _ hadvance rfl
      cases flow with
      | normal => exact executeParts_aligned hsub hadvance.boxed hrest hshared
      | returned value => exact .pure hadvance.boxed rfl

end

/-! ## Runs -/

/-- A single statement is executed as if it stood alone. -/
theorem run_single (fuel : Nat) (s : Stmt) :
    Task.run (fuel + 2) (.executeAll [s]) = Task.run (fuel + 1) (.execute s) := by
  funext machine
  change (Bind.bind (Task.run (fuel + 1) (.execute s)) _ : Action Flow) machine = _
  simp only [Bind.bind, EStateM.bind]
  cases Task.run (fuel + 1) (.execute s) machine with
  | ok flow after => cases flow <;> rfl
  | error interrupt after => rfl

section

variable {fuel fuel' : Nat} (hsub : RunsAligned contrast (Task.run fuel) (Task.run fuel'))

include hsub

/-- A statement in an extra block is executed as the statement is, with fuel for the block. -/
theorem runBlock_aligned {s s' : Stmt}
    (hs : Stmt.BoxedInside contrast.demands (.extra :: layers) s s') (hnone : s.declares = [])
    (hmachine : machine.Boxed contrast places layers machine') :
    Aligned contrast layers places machine machine' (Task.run (fuel + 1) (.execute s))
      (Task.run (fuel' + 3) (.execute (.block [s']))) Same := by
  have hinside : ∀ inner : Machine, machine.Boxed contrast places (.extra :: layers) inner →
      Aligned contrast (.extra :: layers) places machine inner (execute (Task.run fuel) s)
        (Task.run (fuel' + 2) (.executeAll [s'])) fun _ a a' _ _ => a = a' := by
    intro inner hinner
    rw [run_single]
    exact execute_aligned hsub hinner hs fun hsome => absurd hnone hsome
  exact Aligned.withinExtra hmachine (some (.block [s'])) hinside

/-- With one more unit of fuel on both sides tasks are done alike, if statements in extra blocks
are. -/
theorem runsAligned_succ
    (hblock : ∀ {layers places s s' machine machine'},
      Stmt.BoxedInside contrast.demands (.extra :: layers) s s' → s.declares = [] →
        Machine.Boxed contrast places layers machine machine' →
          Aligned contrast layers places machine machine' (Task.run (fuel + 1) (.execute s))
            (Task.run (fuel' + 1) (.execute (.block [s']))) Same) :
    RunsAligned contrast (Task.run (fuel + 1)) (Task.run (fuel' + 1)) := by
  intro layers places task task' machine machine' htask hmachine
  cases htask with
  | evaluate huses => exact evaluate_aligned hsub hmachine huses
  | evaluateAll huses => exact evaluateAll_aligned hsub hmachine huses
  | execute hs hshared =>
      cases hs with
      | bare hinside => exact execute_aligned hsub hmachine hinside hshared
      | box hnone hinside => exact hblock hinside hnone hmachine
  | executeAll hstatements hshared => exact executeAll_aligned hsub hmachine hstatements hshared

end

/-- With three times the fuel, a run with extra blocks does what the run without them does. -/
theorem runsAligned_first (distances distances' : Distances) {fuel fuel' : Nat}
    (hle : 3 * fuel ≤ fuel') :
    RunsAligned ⟨distances, distances', .first⟩ (Task.run fuel) (Task.run fuel') := by
  induction fuel generalizing fuel' with
  | zero => exact fun _ _ _ _ _ _ _ _ => .lacks rfl
  | succ fuel ih =>
      obtain ⟨rest, rfl⟩ : ∃ rest, fuel' = rest + 3 := ⟨fuel' - 3, by omega⟩
      exact runsAligned_succ (ih (by omega)) fun hs hnone hmachine =>
        runBlock_aligned (ih (by omega)) hs hnone hmachine

/-- With the same fuel, a run without extra blocks does what the run with them does. -/
theorem runsAligned_second (distances distances' : Distances) {fuel fuel' : Nat}
    (hle : fuel' ≤ fuel) :
    RunsAligned ⟨distances, distances', .second⟩ (Task.run fuel) (Task.run fuel') := by
  induction fuel' using Nat.strongRecOn generalizing fuel with
  | ind fuel' ih =>
      cases fuel' with
      | zero => exact fun _ _ _ _ _ _ _ _ => .lacks' rfl
      | succ fuel' =>
          obtain ⟨fuel, rfl⟩ : ∃ rest, fuel = rest + 1 := ⟨fuel - 1, by omega⟩
          refine runsAligned_succ (ih fuel' (by omega) (by omega)) fun hs hnone hmachine => ?_
          -- the block needs two units of fuel more than the statement in it
          match fuel' with
          | 0 => exact .lacks' rfl
          | 1 => exact .lacks' rfl
          | rest + 2 => exact runBlock_aligned (ih rest (by omega) (by omega)) hs hnone hmachine

end Lox.Run
