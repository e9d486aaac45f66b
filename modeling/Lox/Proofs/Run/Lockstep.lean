import Lox.Proofs.Run.Paired

/-!
# Twins in lockstep

From twin machines, the steps of twin tasks come about alike, one lemma for each construct. So do
whole runs, with the same fuel.
-/

namespace Lox.Run

variable {stride : Stride} {scopes : List Renamer} {renamers : Renamers}
  {machine machine' : Machine}

/-! ## Changes of both heaps -/

/-- Parameters are bound under their names in each heap. -/
theorem bindParameters_twin {pairings : Pairing → Prop} {pairing : Pairing} {renamer : Renamer}
    {place : EnvironmentId} (hrenamer : renamers place = renamer)
    {parameters parameters' : List Token}
    (hparameters : List.Forall₂ (pairing.Named renamer) parameters parameters')
    (arguments : List Value) {heap heap' : Heap} (h : heap.Twin pairings renamers heap') :
    heap.Onward renamers (bindParameters place parameters arguments heap) renamers ∧
      (bindParameters place parameters arguments heap).Twin pairings renamers
        (bindParameters place parameters' arguments heap') := by
  induction hparameters generalizing arguments heap heap' with
  | nil => exact ⟨.refl _ _, h⟩
  | @cons parameter parameter' rest rest' hparameter _ ih =>
      cases arguments with
      | nil => exact ⟨.refl _ _, h⟩
      | cons argument arguments =>
          have hdefined := h.define place parameter.lexeme argument
          rw [hrenamer, ← hparameter.lexeme] at hdefined
          obtain ⟨honward, htwin⟩ := ih arguments hdefined
          exact ⟨(Heap.Onward.define heap renamers place _ _).trans honward, htwin⟩

/-- Methods that are twins make tables of twins. -/
theorem methodTable_twin {pairings : Pairing → Prop} {pairing : Pairing}
    (hpairing : pairings pairing) {heap : Heap} {place : EnvironmentId}
    (hscoped : heap.Scoped renamers scopes place) {methods methods' : List FunctionDecl}
    (hmethods : FunctionDecl.TwinAll pairing (.same :: scopes) methods methods') (name : String) :
    Option.Rel (Closure.TwinMethod pairings renamers heap) ((methodTable place methods).get? name)
      ((methodTable place methods').get? name) := by
  refine methodTable_rel ?_ name
  induction methods generalizing methods' with
  | nil =>
      cases hmethods
      exact .nil
  | cons method rest ih =>
      cases hmethods with
      | cons hmethod hrest =>
          exact .cons ⟨hmethod.name.lexeme, rfl, hmethod.isInitializer, pairing, scopes, hpairing,
            hmethod, hscoped⟩ (ih hrest)

/-! ## Operators -/

section

variable (htwin : machine.Twin stride.comparison renamers scopes machine')

include htwin

theorem unary_pairs {operator operator' : Token} (hsame : stride.pairing.Same operator operator')
    (operand : Value) :
    Pairs stride scopes renamers machine machine' (fun _ => unary operator operand)
      (fun _ => unary operator' operand) fun _ a a' _ _ => a = a' := by
  unfold unary
  simp only [hsame.category]
  split
  · exact .pure htwin rfl
  · exact .fail htwin _ hsame.token
  · exact .pure htwin rfl
  · exact .fail htwin _ hsame.token

theorem arithmetic_pairs {operator operator' : Token}
    (hsame : stride.pairing.Same operator operator') (a b : Float) :
    Pairs stride scopes renamers machine machine' (fun _ => arithmetic operator a b)
      (fun _ => arithmetic operator' a b) fun _ a a' _ _ => a = a' := by
  unfold arithmetic
  simp only [hsame.category]
  split <;> first | exact .pure htwin rfl | exact .fail htwin _ hsame.token

theorem binary_pairs {operator operator' : Token} (hsame : stride.pairing.Same operator operator')
    (left right : Value) :
    Pairs stride scopes renamers machine machine' (fun _ => binary operator left right)
      (fun _ => binary operator' left right) fun _ a a' _ _ => a = a' := by
  unfold binary
  simp only [hsame.category]
  split
  · unfold add
    split
    · exact .pure htwin rfl
    · exact .pure htwin rfl
    · exact .fail htwin _ hsame.token
  · exact .pure htwin rfl
  · exact .pure htwin rfl
  · split
    · exact arithmetic_pairs htwin hsame _ _
    · exact .fail htwin _ hsame.token

/-! ## Names -/

/-- A global name is read. -/
theorem readGlobal_pairs {name name' : Token} (hname : name'.lexeme = name.lexeme)
    (htoken : stride.pairing.token name name') :
    Pairs stride scopes renamers machine machine'
      (fun _ => lift (machine.heap.get Heap.globals name))
      (fun _ => lift (machine'.heap.get Heap.globals name')) fun _ a a' _ _ => a = a' := by
  have houtermost' : (machine'.heap.environment Heap.globals).enclosing = none := by
    rw [htwin.heap.enclosing, htwin.heap.outermost]
  rw [Heap.get, Heap.get, get?_of_outermost htwin.heap.outermost, get?_of_outermost houtermost',
    hname, htwin.heap.binding?_globals]
  cases machine.heap.binding? Heap.globals name.lexeme with
  | some value => exact .pure htwin rfl
  | none =>
      rw [Heap.undefined, Heap.undefined, hname]
      exact .throw htwin (.same _ htoken)

/-- A variable is read by the use that the step is about. -/
theorem readVariable_pairs (hpairing : stride.comparison.pairing stride.pairing) {id id' : NodeId}
    {distance : Option Nat} {name name' : Token}
    (huse : stride.pairing.Use scopes id id' distance name name') {e : Expr} {kind : UseKind}
    (htask : stride.task = .evaluate e) (he : e.use? = some ⟨kind, name, id⟩)
    (hkind : kind ≠ .assign) :
    Pairs stride scopes renamers machine machine' (fun _ => readVariable id name)
      (fun _ => readVariable id' name') fun _ a a' _ _ => a = a' := by
  refine (Pairs.get htwin).bind ?_
  rintro renamers _ _ machine machine' - ⟨rfl, rfl, rfl, rfl, rfl⟩
  obtain ⟨hdistance, hdistance'⟩ := htwin.distances _ hpairing _ _ _ huse.matched
  rw [hdistance, hdistance']
  cases distance with
  | none => exact readGlobal_pairs htwin huse.lexeme huse.token
  | some distance =>
      simp only [htwin.environment, huse.lexeme, htwin.heap.getAt? htwin.scopes]
      cases machine.heap.getAt? machine.environment distance name.lexeme with
      | some value => exact .pure htwin rfl
      | none =>
          rw [← huse.lexeme]
          exact .throw htwin (.lost htask he hkind huse.matched huse.token)

/-- A name that is bound in an environment is bound anew there. -/
theorem assign_pairs {place : EnvironmentId} {name name' : Token} (value : Value)
    (hbound : (machine.heap.binding? place name.lexeme).isSome)
    (hname : name'.lexeme = (renamers place).rename name.lexeme) :
    Pairs stride scopes renamers machine machine' (fun _ => assign place name value)
      (fun _ => assign place name' value) fun _ _ _ _ _ => True := by
  have hbound' : (machine'.heap.binding? place name'.lexeme).isSome := by
    rwa [hname, htwin.heap.binding]
  refine (Pairs.heap htwin).bind ?_
  rintro renamers _ _ machine machine' - ⟨rfl, rfl, rfl, rfl, rfl⟩
  simp only [binder?_of_bound hbound, binder?_of_bound hbound']
  exact (Pairs.bound htwin place value hname).mono fun _ _ _ _ _ _ => True.intro

theorem assignGlobal_pairs {name name' : Token} (value : Value)
    (hname : name'.lexeme = name.lexeme) (htoken : stride.pairing.token name name') :
    Pairs stride scopes renamers machine machine' (fun _ => assign Heap.globals name value)
      (fun _ => assign Heap.globals name' value) fun _ _ _ _ _ => True := by
  by_cases hbound : (machine.heap.binding? Heap.globals name.lexeme).isSome
  · refine assign_pairs htwin value hbound ?_
    rw [htwin.heap.globals, hname]
    rfl
  · have houtermost' : (machine'.heap.environment Heap.globals).enclosing = none := by
      rw [htwin.heap.enclosing, htwin.heap.outermost]
    have hbound' : ¬(machine'.heap.binding? Heap.globals name'.lexeme).isSome := by
      rwa [hname, htwin.heap.binding?_globals]
    refine (Pairs.heap htwin).bind ?_
    rintro renamers _ _ machine machine' - ⟨rfl, rfl, rfl, rfl, rfl⟩
    simp only [binder?_of_outermost htwin.heap.outermost, binder?_of_outermost houtermost', hbound,
      hbound', if_false, Bool.false_eq_true]
    rw [Heap.undefined, Heap.undefined, hname]
    exact .throw htwin (.same _ htoken)

theorem writeVariable_pairs (hpairing : stride.comparison.pairing stride.pairing) {id id' : NodeId}
    {distance : Option Nat} {name name' : Token}
    (huse : stride.pairing.Use scopes id id' distance name name') (value : Value) :
    Pairs stride scopes renamers machine machine' (fun _ => writeVariable id name value)
      (fun _ => writeVariable id' name' value) fun _ _ _ _ _ => True := by
  refine (Pairs.get htwin).bind ?_
  rintro renamers _ _ machine machine' - ⟨rfl, rfl, rfl, rfl, rfl⟩
  obtain ⟨hdistance, hdistance'⟩ := htwin.distances _ hpairing _ _ _ huse.matched
  rw [hdistance, hdistance']
  cases distance with
  | none => exact assignGlobal_pairs htwin value huse.lexeme huse.token
  | some distance =>
      have hdefined : (machine.heap.assignAt machine.environment distance name.lexeme value).Twin
          stride.comparison.pairing renamers
          (machine'.heap.assignAt machine'.environment distance name'.lexeme value) := by
        rw [Heap.assignAt, Heap.assignAt, htwin.environment, htwin.heap.ancestor, huse.lexeme,
          ← htwin.scopes.ancestor htwin.heap.outermost htwin.heap.globals]
        exact htwin.heap.define _ _ value
      exact (Pairs.update htwin (.define _ _ _ _ _) hdefined).mono fun _ _ _ _ _ _ => True.intro

/-- A method that was found is bound to an instance. -/
theorem boundMethod_pairs {method method' : Closure}
    (hmethod : method.TwinMethod stride.comparison.pairing renamers machine.heap method')
    (receiver : InstanceId) :
    Pairs stride scopes renamers machine machine'
      (fun _ => allocate fun heap => heap.boundMethod method receiver)
      (fun _ => allocate fun heap => heap.boundMethod method' receiver)
      fun _ a a' _ _ => a = a' := by
  obtain ⟨later, honward, hbound, heq⟩ := htwin.heap.boundMethod hmethod receiver
  refine (Pairs.allocate htwin honward hbound).mono ?_
  rintro _ _ _ _ _ ⟨rfl, rfl, rfl, -⟩
  exact heq.symm

theorem readSuper_pairs (hpairing : stride.comparison.pairing stride.pairing) {id id' : NodeId}
    {distance : Option Nat} {keyword keyword' method method' : Token}
    (huse : stride.pairing.Use scopes id id' distance keyword keyword')
    (hsame : stride.pairing.Same method method') :
    Pairs stride scopes renamers machine machine' (fun _ => readSuper id keyword method)
      (fun _ => readSuper id' keyword' method') fun _ a a' _ _ => a = a' := by
  refine (Pairs.get htwin).bind ?_
  rintro renamers _ _ machine machine' - ⟨rfl, rfl, rfl, rfl, rfl⟩
  obtain ⟨hdistance, hdistance'⟩ := htwin.distances _ hpairing _ _ _ huse.matched
  rw [hdistance, hdistance']
  cases distance with
  | none => exact .fail htwin _ huse.token
  | some distance =>
      simp only [htwin.environment, htwin.heap.getAt?_keyword _ _ (.inr rfl),
        htwin.heap.getAt?_keyword _ _ (.inl rfl), hsame.lexeme]
      split
      · next superclass _ =>
          split
          · have hfound := htwin.heap.findMethod? superclass method.lexeme
            generalize machine.heap.findMethod? superclass method.lexeme = found at hfound ⊢
            generalize machine'.heap.findMethod? superclass method.lexeme = found' at hfound ⊢
            cases hfound with
            | none => exact .fail htwin _ hsame.token
            | some hmethod => exact boundMethod_pairs htwin hmethod _
          · exact .fail htwin _ huse.token
      · exact .fail htwin _ huse.token

end

/-! ## Expressions -/

section

variable (htwin : machine.Twin stride.comparison renamers scopes machine')
  (hpairing : stride.comparison.pairing stride.pairing)

include htwin hpairing

theorem evaluate_ask {e e' : Expr} (h : e.Twin stride.pairing scopes e') :
    Pairs stride scopes renamers machine machine' (fun runner => runner (.evaluate e))
      (fun runner => runner (.evaluate e')) fun _ (a a' : Value) _ _ => a = a' :=
  .ask htwin hpairing (.evaluate h)

theorem evaluateLogical_pairs {left left' right right' : Expr} {operator operator' : Token}
    (hleft : left.Twin stride.pairing scopes left')
    (hsame : stride.pairing.Same operator operator')
    (hright : right.Twin stride.pairing scopes right') :
    Pairs stride scopes renamers machine machine'
      (fun runner => evaluateLogical runner left operator right)
      (fun runner => evaluateLogical runner left' operator' right') fun _ a a' _ _ => a = a' := by
  refine (evaluate_ask htwin hpairing hleft).bind ?_
  rintro later value _ after after' hfollows rfl
  rw [hsame.category]
  cases if operator.category = .keyword .or_ then value.isTruthy else !value.isTruthy with
  | true => exact .pure hfollows.twin rfl
  | false => exact evaluate_ask hfollows.twin hpairing hright

theorem evaluateGet_pairs {object object' : Expr} {name name' : Token}
    (hobject : object.Twin stride.pairing scopes object')
    (hsame : stride.pairing.Same name name') :
    Pairs stride scopes renamers machine machine' (fun runner => evaluateGet runner object name)
      (fun runner => evaluateGet runner object' name') fun _ a a' _ _ => a = a' := by
  refine (evaluate_ask htwin hpairing hobject).bind ?_
  rintro later value _ after after' hfollows rfl
  cases value with
  | instance_ receiver =>
      refine (Pairs.heap hfollows.twin).bind ?_
      rintro later _ _ after after' hread ⟨rfl, rfl, rfl, rfl, rfl⟩
      have hproperty := hread.twin.heap.property? receiver name.lexeme
      simp only [hsame.lexeme]
      generalize after.heap.property? receiver name.lexeme = property at hproperty ⊢
      generalize after'.heap.property? receiver name.lexeme = property' at hproperty ⊢
      cases hproperty with
      | none => exact .fail hread.twin _ hsame.token
      | some hfound =>
          cases hfound with
          | field value => exact .pure hread.twin rfl
          | method hmethod => exact boundMethod_pairs hread.twin hmethod receiver
  | _ => exact .fail hfollows.twin _ hsame.token

theorem evaluateSet_pairs {object object' value value' : Expr} {name name' : Token}
    (hobject : object.Twin stride.pairing scopes object')
    (hsame : stride.pairing.Same name name') (hvalue : value.Twin stride.pairing scopes value') :
    Pairs stride scopes renamers machine machine'
      (fun runner => evaluateSet runner object name value)
      (fun runner => evaluateSet runner object' name' value') fun _ a a' _ _ => a = a' := by
  refine (evaluate_ask htwin hpairing hobject).bind ?_
  rintro later target _ after after' hfollows rfl
  cases target with
  | instance_ receiver =>
      refine (evaluate_ask hfollows.twin hpairing hvalue).bind ?_
      rintro later value _ after after' hfollows rfl
      rw [hsame.lexeme]
      refine (Pairs.update hfollows.twin (.of_environments rfl)
        (hfollows.twin.heap.setField receiver name.lexeme value)).bind ?_
      rintro _ _ _ _ _ hstored -
      exact .pure hstored.twin rfl
  | _ => exact .fail hfollows.twin _ hsame.token

end

/-! ## Calls -/

section

variable (htwin : machine.Twin stride.comparison renamers scopes machine')

include htwin

theorem callClosure_pairs {closure closure' : Closure}
    (hclosure : closure.Twin stride.comparison.pairing [] renamers machine.heap closure')
    (arguments : List Value) :
    Pairs stride scopes renamers machine machine'
      (fun runner => callClosure runner closure arguments)
      (fun runner => callClosure runner closure' arguments) fun _ a a' _ _ => a = a' := by
  obtain ⟨henvironment, hinitializer, pairing, around, hpairing, hdeclared, hscoped⟩ := hclosure
  obtain ⟨declaration, place, initializer⟩ := closure
  obtain ⟨declaration', place', initializer'⟩ := closure'
  cases henvironment
  cases hinitializer
  cases hdeclared with
  | @mk _ renamer name name' parameters parameters' body body' _ hname hparameters hbody =>
      let region := some (Region.function ⟨name, parameters, body⟩)
      refine (Pairs.allocate htwin (.child machine.heap renamers place region renamer)
        (htwin.heap.child place region (some (.function ⟨name', parameters', body'⟩)) renamer)).bind
          ?_
      rintro entered inner inner' after after' hentered ⟨rfl, hinner, hinner', rfl, rfl⟩
      have hinner' : inner' = inner := by rw [hinner', hinner, htwin.heap.child_eq]
      subst hinner' hinner
      have hrenamer : Function.update renamers machine.heap.environments.size renamer
          (machine.heap.child place region).1 = renamer := Function.update_self _ _ _
      obtain ⟨honward, hbound⟩ := bindParameters_twin hrenamer hparameters arguments
        hentered.twin.heap
      refine (Pairs.update hentered.twin honward hbound).bind ?_
      rintro bound _ _ after after' hbound ⟨rfl, rfl, rfl⟩
      have hinside := (hscoped.child region renamer).onward honward
      refine (Pairs.within hbound.twin hinside fun hstart =>
        .ask hstart hpairing (.executeAll hbody)).bind ?_
      rintro later flow flow' after after' hfollows ⟨_, _, rfl, -⟩
      split
      · refine (Pairs.heap hfollows.twin).bind ?_
        rintro later _ _ after after' hread ⟨rfl, rfl, rfl, rfl, rfl⟩
        rw [hread.twin.heap.getAt?_keyword _ _ (.inl rfl)]
        exact .pure hread.twin rfl
      · cases flow with
        | normal => exact .pure hfollows.twin rfl
        | returned value => exact .pure hfollows.twin rfl

theorem construct_pairs (id : ClassId) (arguments : List Value) :
    Pairs stride scopes renamers machine machine' (fun runner => construct runner id arguments)
      (fun runner => construct runner id arguments) fun _ a a' _ _ => a = a' := by
  refine (Pairs.allocate htwin (.of_environments rfl) (htwin.heap.addInstance id)).bind ?_
  rintro later receiver receiver' after after' hadded ⟨rfl, hreceiver, hreceiver', -⟩
  have hsame : receiver = receiver' := by
    rw [hreceiver', hreceiver, htwin.heap.addInstance_eq]
  subst hsame
  refine (Pairs.heap hadded.twin).bind ?_
  rintro later _ _ after after' hread ⟨rfl, rfl, rfl, rfl, rfl⟩
  have hfound := hread.twin.heap.findMethod? id "init"
  simp only [Heap.initializer?]
  generalize after.heap.findMethod? id "init" = found at hfound ⊢
  generalize after'.heap.findMethod? id "init" = found' at hfound ⊢
  cases hfound with
  | none => exact .pure hread.twin rfl
  | some hmethod =>
      obtain ⟨latest, honward, hbound, hclosure⟩ := hread.twin.heap.bindThis hmethod receiver
      refine (Pairs.allocate hread.twin honward hbound).bind ?_
      rintro _ closure closure' after after' hbound ⟨rfl, rfl, rfl, rfl, rfl⟩
      refine (callClosure_pairs hbound.twin hclosure arguments).bind ?_
      rintro _ _ _ _ _ hcalled -
      exact .pure hcalled.twin rfl

theorem invoke_pairs {callee callee' : Heap.Callable}
    (hcallee : Heap.Twin.Callable stride.comparison.pairing renamers machine.heap callee callee')
    (arguments : List Value) :
    Pairs stride scopes renamers machine machine' (fun runner => invoke runner callee arguments)
      (fun runner => invoke runner callee' arguments) fun _ a a' _ _ => a = a' := by
  cases hcallee with
  | native native => cases native with
    | clock =>
        refine .give ⟨.refl _ _, rfl, htwin.heap, htwin.scopes, htwin.environment, htwin.callDepth,
          htwin.clock, congrArg (· + 1) htwin.clockReads, htwin.sink, htwin.output,
          htwin.distances⟩ ?_
        rw [htwin.clock, htwin.clockReads]
  | closure hclosure => exact callClosure_pairs htwin hclosure arguments
  | class_ id => exact construct_pairs htwin id arguments

theorem evaluateCall_pairs (hpairing : stride.comparison.pairing stride.pairing)
    {callee callee' : Expr} {paren paren' : Token} {arguments arguments' : List Expr}
    (hcallee : callee.Twin stride.pairing scopes callee') (hsame : stride.pairing.Same paren paren')
    (harguments : Expr.TwinAll stride.pairing scopes arguments arguments') :
    Pairs stride scopes renamers machine machine'
      (fun runner => evaluateCall runner callee paren arguments)
      (fun runner => evaluateCall runner callee' paren' arguments') fun _ a a' _ _ => a = a' := by
  refine (evaluate_ask htwin hpairing hcallee).bind ?_
  rintro later value _ after after' hfollows rfl
  refine (Pairs.ask hfollows.twin hpairing (.evaluateAll harguments)).bind ?_
  rintro later values _ after after' hfollows rfl
  refine (Pairs.heap hfollows.twin).bind ?_
  rintro later _ _ after after' hread ⟨rfl, rfl, rfl, rfl, rfl⟩
  have hcallable := hread.twin.heap.callable? value
  generalize after.heap.callable? value = callable at hcallable ⊢
  generalize after'.heap.callable? value = callable' at hcallable ⊢
  cases hcallable with
  | none => exact .fail hread.twin _ hsame.token
  | some hcallable =>
      refine (Pairs.heap hread.twin).bind ?_
      rintro later _ _ after after' hread ⟨rfl, rfl, rfl, rfl, rfl⟩
      rw [hread.twin.heap.arity hcallable]
      split
      · exact .fail hread.twin _ hsame.token
      · refine (Pairs.get hread.twin).bind ?_
        rintro later _ _ after after' hread ⟨rfl, rfl, rfl, rfl, rfl⟩
        rw [hread.twin.callDepth]
        split
        · exact .fail hread.twin _ hsame.token
        · refine (Pairs.nested hread.twin fun hinside =>
            invoke_pairs hinside hcallable values).mono ?_
          rintro _ _ _ _ _ ⟨_, _, rfl, -⟩
          rfl

theorem evaluate_pairs (hpairing : stride.comparison.pairing stride.pairing) {e e' : Expr}
    (htask : stride.task = .evaluate e) (he : e.Twin stride.pairing scopes e') :
    Pairs stride scopes renamers machine machine' (fun runner => evaluate runner e)
      (fun runner => evaluate runner e') fun _ a a' _ _ => a = a' := by
  cases he with
  | literal value _ => exact .pure htwin rfl
  | grouping _ hinner => exact evaluate_ask htwin hpairing hinner
  | unary _ hsame hoperand =>
      refine (evaluate_ask htwin hpairing hoperand).bind ?_
      rintro _ value _ _ _ hfollows rfl
      exact unary_pairs hfollows.twin hsame value
  | binary _ hleft hsame hright =>
      refine (evaluate_ask htwin hpairing hleft).bind ?_
      rintro _ a _ _ _ hfollows rfl
      refine (evaluate_ask hfollows.twin hpairing hright).bind ?_
      rintro _ b _ _ _ hfollows rfl
      exact binary_pairs hfollows.twin hsame a b
  | logical _ hleft hsame hright => exact evaluateLogical_pairs htwin hpairing hleft hsame hright
  | var huse => exact readVariable_pairs htwin hpairing huse htask rfl (by simp)
  | assign huse hvalue =>
      refine (evaluate_ask htwin hpairing hvalue).bind ?_
      rintro _ value _ _ _ hfollows rfl
      refine (writeVariable_pairs hfollows.twin hpairing huse value).bind ?_
      rintro _ _ _ _ _ hwritten -
      exact .pure hwritten.twin rfl
  | call _ hcallee hsame harguments =>
      exact evaluateCall_pairs htwin hpairing hcallee hsame harguments
  | get _ hobject hsame => exact evaluateGet_pairs htwin hpairing hobject hsame
  | set _ hobject hsame hvalue => exact evaluateSet_pairs htwin hpairing hobject hsame hvalue
  | super_ huse hsame => exact readSuper_pairs htwin hpairing huse hsame
  | this_ huse => exact readVariable_pairs htwin hpairing huse htask rfl (by simp)

theorem evaluateAll_pairs (hpairing : stride.comparison.pairing stride.pairing) {es es' : List Expr}
    (hes : Expr.TwinAll stride.pairing scopes es es') :
    Pairs stride scopes renamers machine machine' (fun runner => evaluateAll runner es)
      (fun runner => evaluateAll runner es') fun _ a a' _ _ => a = a' := by
  cases hes with
  | nil => exact .pure htwin rfl
  | cons he hrest =>
      refine (evaluate_ask htwin hpairing he).bind ?_
      rintro _ value _ _ _ hfollows rfl
      refine (Pairs.ask hfollows.twin hpairing (.evaluateAll hrest)).bind ?_
      rintro _ values _ _ _ hfollows rfl
      exact .pure hfollows.twin rfl

end

/-! ## Statements -/

/-- Bytes are offered alike. -/
theorem offer_twin {ahead : Nat} {output output' : Output} (h : output.Twin ahead output')
    (sink : Sink) (bytes : List UInt8) :
    (sink.offer bytes output').1 = (sink.offer bytes output).1 ∧
      (sink.offer bytes output).2.Twin ahead (sink.offer bytes output').2 := by
  induction bytes generalizing output output' with
  | nil => exact ⟨rfl, h⟩
  | cons byte rest ih =>
      simp only [Sink.offer, h.offered]
      cases sink.refuseByte output.offered with
      | some message => exact ⟨rfl, rfl, h.written, h.flushes⟩
      | none => exact ih ⟨rfl, by rw [h.written], h.flushes⟩

section

variable (htwin : machine.Twin stride.comparison renamers scopes machine')

include htwin

theorem write_pairs (text : String) :
    Pairs stride scopes renamers machine machine' (fun _ => write text) (fun _ => write text)
      fun _ _ _ _ _ => True := by
  obtain ⟨hmessage, houtput⟩ := offer_twin htwin.output machine.sink (Text.encode text)
  simp only [Pairs, write, settle, htwin.sink]
  generalize machine.sink.offer (Text.encode text) machine.output = offered at hmessage houtput ⊢
  generalize machine.sink.offer (Text.encode text) machine'.output = offered' at hmessage houtput ⊢
  obtain ⟨message, output⟩ := offered
  obtain ⟨message', output'⟩ := offered'
  cases hmessage
  have hwritten : machine.Onward stride scopes renamers renamers { machine with output := output }
      { machine' with sink := machine.sink, output := output' } :=
    ⟨.refl _ _, rfl, htwin.heap, htwin.scopes, htwin.environment, htwin.callDepth, htwin.clock,
      htwin.clockReads, rfl, houtput, htwin.distances⟩
  cases message with
  | some message => exact .halt (.refused message) hwritten
  | none => exact .give hwritten True.intro

/-- The environment of the methods of a class. -/
theorem methodEnvironment_pairs (superclass : Option ClassId) (methods methods' : List FunctionDecl) :
    Pairs stride scopes renamers machine machine' (fun _ => methodEnvironment superclass methods)
      (fun _ => methodEnvironment superclass methods') fun later place place' after _ =>
        place = place' ∧ after.heap.Scoped later
          (if superclass.isSome then .same :: scopes else scopes) place := by
  refine (Pairs.here htwin).bind ?_
  rintro renamers _ _ machine machine' hread ⟨rfl, rfl, rfl, rfl, rfl⟩
  cases superclass with
  | none => exact .pure htwin ⟨rfl, htwin.scopes⟩
  | some id =>
      let region := some (Region.superclass methods)
      refine (Pairs.allocate htwin
        (.child machine.heap renamers machine.environment region .same)
        (htwin.heap.child machine.environment region (some (.superclass methods')) .same)).bind ?_
      rintro later inner inner' after after' hentered ⟨rfl, hinner, hinner', hafter, -⟩
      have hsame : inner = inner' := by rw [hinner', hinner, htwin.heap.child_eq]
      subst hsame
      have hrenamer : Function.update renamers machine.heap.environments.size .same inner =
          .same := by
        rw [hinner]
        exact Function.update_self _ _ _
      have hscoped := htwin.scopes.child region .same
      refine (Pairs.bound hentered.twin inner (.class_ id) ?_).bind ?_
      · rw [hrenamer]
        rfl
      · rintro _ _ _ _ _ hbound ⟨rfl, -, -⟩
        refine .pure hbound.twin ⟨rfl, ?_⟩
        rw [hafter] at hbound
        rw [hinner]
        exact hscoped.onward hbound.onward

end

section

variable (htwin : machine.Twin stride.comparison renamers scopes machine')
  (hpairing : stride.comparison.pairing stride.pairing)

include htwin hpairing

theorem evaluateOpt_pairs {value value' : Option Expr}
    (hvalue : Expr.TwinOpt stride.pairing scopes value value') :
    Pairs stride scopes renamers machine machine' (fun runner => evaluateOpt runner value)
      (fun runner => evaluateOpt runner value') fun _ a a' _ _ => a = a' := by
  cases hvalue with
  | none => exact .pure htwin rfl
  | some he => exact evaluate_ask htwin hpairing he

theorem evaluateSuperclass_pairs {name name' : Token} (hname : stride.pairing.token name name')
    {superclass superclass' : Option Expr}
    (hsuper : Expr.TwinOpt stride.pairing scopes superclass superclass') :
    Pairs stride scopes renamers machine machine'
      (fun runner => evaluateSuperclass runner name superclass)
      (fun runner => evaluateSuperclass runner name' superclass') fun _ a a' _ _ =>
        a = a' ∧ a.isSome = superclass.isSome := by
  cases hsuper with
  | none => exact .pure htwin ⟨rfl, rfl⟩
  | @some e e' he =>
      have htoken : stride.pairing.token (superclassToken name e) (superclassToken name' e') := by
        cases he with
        | var huse => exact huse.token
        | _ => exact hname
      refine (evaluate_ask htwin hpairing he).bind ?_
      rintro _ value _ _ _ hfollows rfl
      cases value with
      | class_ id => exact .pure hfollows.twin ⟨rfl, rfl⟩
      | _ => exact .fail hfollows.twin _ htoken

theorem executeClass_pairs {name name' : Token} {superclass superclass' : Option Expr}
    {methods methods' : List FunctionDecl} (hname : stride.pairing.Kept scopes name name')
    (hsuper : Expr.TwinOpt stride.pairing scopes superclass superclass')
    (hmethods : FunctionDecl.TwinAll stride.pairing (.same :: methodScopes superclass scopes) methods
      methods') :
    Pairs stride scopes renamers machine machine'
      (fun runner => executeClass runner name superclass methods)
      (fun runner => executeClass runner name' superclass' methods') fun _ _ _ _ _ => True := by
  have hlexeme : name'.lexeme = (Renamer.innermost scopes).rename name.lexeme := by
    rw [hname.same.lexeme, hname.fixed]
  refine (Pairs.define htwin .nil hlexeme).bind ?_
  rintro _ _ _ defined _ hdefined ⟨rfl, hafter, -⟩
  -- the name is bound from now on, so that the class goes where the name was bound
  have hbound : (defined.heap.binding? defined.environment name.lexeme).isSome := by
    rw [hafter, Heap.binding?_define_self (htwin.heap.lt_size htwin.scopes)]
    rfl
  refine (evaluateSuperclass_pairs hdefined.twin hpairing hname.same.token hsuper).bind ?_
  rintro _ id _ evaluated _ hevaluated ⟨rfl, hsome⟩
  refine (methodEnvironment_pairs hevaluated.twin id methods methods').bind ?_
  rintro later place _ entered _ hentered ⟨rfl, hscoped⟩
  have hentry : Class.Twin stride.comparison.pairing later entered.heap
      ⟨name.lexeme, id, methodTable place methods⟩
      ⟨name'.lexeme, id, methodTable place methods'⟩ := by
    refine ⟨hname.same.lexeme, rfl, methodTable_twin hpairing ?_ hmethods⟩
    rwa [hsome] at hscoped
  refine (Pairs.allocate hentered.twin (.of_environments rfl)
    (hentered.twin.heap.addClass hentry)).bind ?_
  rintro _ classId classId' _ _ hadded ⟨rfl, hclass, hclass', -⟩
  have hsame : classId = classId' := by rw [hclass', hclass, hentered.twin.heap.addClass_eq]
  subst hsame
  refine (Pairs.here hadded.twin).bind ?_
  rintro _ _ _ last _ hlast ⟨rfl, rfl, rfl, rfl, rfl⟩
  have hplace : last.environment = defined.environment :=
    hadded.environment.trans (hentered.environment.trans hevaluated.environment)
  have hgrows := (hevaluated.onward.grows.trans hentered.onward.grows).trans hadded.onward.grows
  refine assign_pairs hlast.twin _ ?_ ?_
  · rw [hplace]
    exact hgrows.bound _ _ hbound
  · rw [hlast.twin.scopes.innermost hlast.twin.heap.globals, hlexeme]

theorem executeWhile_pairs {condition condition' : Expr} {body body' : Stmt}
    (hcondition : condition.Twin stride.pairing scopes condition')
    (hbody : body.Twin stride.pairing scopes body') :
    Pairs stride scopes renamers machine machine'
      (fun runner => executeWhile runner condition body)
      (fun runner => executeWhile runner condition' body') fun _ a a' _ _ => a = a' := by
  refine (evaluate_ask htwin hpairing hcondition).bind ?_
  rintro _ value _ _ _ hfollows rfl
  cases value.isTruthy with
  | false => exact .pure hfollows.twin rfl
  | true =>
      refine (Pairs.ask hfollows.twin hpairing (.execute hbody)).bind ?_
      rintro _ flow _ _ _ hfollows rfl
      cases flow with
      | normal => exact .ask hfollows.twin hpairing (.execute (.while_ hcondition hbody))
      | returned value => exact .pure hfollows.twin rfl

theorem execute_pairs {s s' : Stmt} (hs : s.Twin stride.pairing scopes s') :
    Pairs stride scopes renamers machine machine' (fun runner => execute runner s)
      (fun runner => execute runner s') fun _ a a' _ _ => a = a' := by
  cases hs with
  | expression hvalue =>
      refine (evaluate_ask htwin hpairing hvalue).bind ?_
      rintro _ value _ _ _ hfollows rfl
      exact .pure hfollows.twin rfl
  | print hvalue =>
      refine (evaluate_ask htwin hpairing hvalue).bind ?_
      rintro _ value _ _ _ hfollows rfl
      refine (Pairs.heap hfollows.twin).bind ?_
      rintro _ _ _ _ _ hread ⟨rfl, rfl, rfl, rfl, rfl⟩
      rw [hread.twin.heap.text]
      refine (write_pairs hread.twin _).bind ?_
      rintro _ _ _ _ _ hwritten -
      exact .pure hwritten.twin rfl
  | var hname hinitializer =>
      refine (evaluateOpt_pairs htwin hpairing hinitializer).bind ?_
      rintro _ value _ _ _ hfollows rfl
      refine (Pairs.define hfollows.twin value hname.lexeme).bind ?_
      rintro _ _ _ _ _ hdefined -
      exact .pure hdefined.twin rfl
  | @block _ renamer body body' _ hbody =>
      refine (Pairs.here htwin).bind ?_
      rintro renamers _ _ machine machine' _ ⟨rfl, rfl, rfl, rfl, rfl⟩
      let region := some (Region.block body)
      refine (Pairs.allocate htwin
        (.child machine.heap renamers machine.environment region renamer)
        (htwin.heap.child machine.environment region (some (.block body')) renamer)).bind ?_
      rintro _ place place' after _ hentered ⟨rfl, hplace, hplace', hafter, -⟩
      have hsame : place = place' := by rw [hplace', hplace, htwin.heap.child_eq]
      subst hsame
      have hscoped : after.heap.Scoped (Function.update renamers machine.heap.environments.size
          renamer) (renamer :: scopes) place := by
        rw [hafter, hplace]
        exact htwin.scopes.child region renamer
      refine (Pairs.within hentered.twin hscoped fun hstart =>
        .ask hstart hpairing (.executeAll hbody)).mono ?_
      rintro _ _ _ _ _ ⟨_, _, rfl, -⟩
      rfl
  | @function _ declaration declaration' hname hdeclaration =>
      refine (Pairs.here htwin).bind ?_
      rintro renamers _ _ machine machine' hread ⟨rfl, rfl, rfl, rfl, rfl⟩
      have hclosure : Closure.Twin stride.comparison.pairing [] renamers machine.heap
          ⟨declaration, machine.environment, false⟩ ⟨declaration', machine.environment, false⟩ :=
        ⟨rfl, rfl, stride.pairing, scopes, hpairing, hdeclaration, htwin.scopes⟩
      refine (Pairs.allocate htwin (.of_environments rfl) (htwin.heap.addFunction hclosure)).bind ?_
      rintro _ id id' _ _ hadded ⟨rfl, hid, hid', -⟩
      have hsame : id = id' := by rw [hid', hid, htwin.heap.addFunction_eq]
      subst hsame
      refine (Pairs.define hadded.twin _ ?_).bind ?_
      · rw [hname.same.lexeme, hname.fixed]
      · rintro _ _ _ _ _ hdefined -
        exact .pure hdefined.twin rfl
  | class_ hname hsuper hmethods =>
      refine (executeClass_pairs htwin hpairing hname hsuper hmethods).bind ?_
      rintro _ _ _ _ _ hfollows -
      exact .pure hfollows.twin rfl
  | ifThen hcondition hthen =>
      refine (evaluate_ask htwin hpairing hcondition).bind ?_
      rintro _ value _ _ _ hfollows rfl
      cases value.isTruthy with
      | true => exact .ask hfollows.twin hpairing (.execute hthen)
      | false => exact .pure hfollows.twin rfl
  | ifElse hcondition hthen helse =>
      refine (evaluate_ask htwin hpairing hcondition).bind ?_
      rintro _ value _ _ _ hfollows rfl
      cases value.isTruthy with
      | true => exact .ask hfollows.twin hpairing (.execute hthen)
      | false => exact .ask hfollows.twin hpairing (.execute helse)
  | while_ hcondition hbody => exact executeWhile_pairs htwin hpairing hcondition hbody
  | return_ keyword keyword' hvalue =>
      refine (evaluateOpt_pairs htwin hpairing hvalue).bind ?_
      rintro _ value _ _ _ hfollows rfl
      exact .pure hfollows.twin rfl

theorem executeAll_pairs {statements statements' : List Stmt}
    (hstatements : Stmt.TwinAll stride.pairing scopes statements statements') :
    Pairs stride scopes renamers machine machine' (fun runner => executeAll runner statements)
      (fun runner => executeAll runner statements') fun _ a a' _ _ => a = a' := by
  cases hstatements with
  | nil => exact .pure htwin rfl
  | cons hs hrest =>
      refine (Pairs.ask htwin hpairing (.execute hs)).bind ?_
      rintro _ flow _ _ _ hfollows rfl
      cases flow with
      | normal => exact .ask hfollows.twin hpairing (.executeAll hrest)
      | returned value => exact .pure hfollows.twin rfl

end

/-! ## Steps and runs -/

/-- The step of a twin task from a twin machine. -/
theorem step_pairs {task' : Task} (htwin : machine.Twin stride.comparison renamers scopes machine')
    (hpairing : stride.comparison.pairing stride.pairing)
    (htask : stride.task.Twin stride.pairing scopes task') :
    Pairs stride scopes renamers machine machine' (fun runner => stride.task.step runner)
      (fun runner => task'.step runner) fun _ a a' _ _ => Task.Alike stride.task task' a a' := by
  obtain ⟨comparison, pairing, fuel, task, start⟩ := stride
  cases htask with
  | evaluate he => exact evaluate_pairs htwin hpairing rfl he
  | evaluateAll hes => exact evaluateAll_pairs htwin hpairing hes
  | execute hs => exact execute_pairs htwin hpairing hs
  | executeAll hstatements => exact executeAll_pairs htwin hpairing hstatements

/-- With the same fuel, twin tasks have twin outcomes from twin machines. -/
theorem runsAlike (comparison : Comparison) (fuel : Nat) : RunsAlike comparison fuel := by
  induction fuel with
  | zero =>
      intro pairing scopes renamers task task' machine machine' _ _ hmachine
      exact ⟨.outOfFuel, renamers, .refl _ _, rfl, hmachine⟩
  | succ fuel ih =>
      intro pairing scopes renamers task task' machine machine' hpairing htask hmachine
      let stride : Stride := ⟨comparison, pairing, fuel, task, machine⟩
      have hpaired : Pairs stride scopes renamers machine machine' _ _ _ :=
        step_pairs hmachine hpairing htask
      exact hpaired.outcome .whole (.refl _ _) hpairing htask ih

end Lox.Run
