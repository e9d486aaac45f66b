import Lox.Proofs.Run.Steady

/-!
# Expressions keep scopes and environments together

The steps of expressions and of calls. A call runs the body of a function where its closure was
made; that place is known for every closure.
-/

namespace Lox.Run

open Scope (Frame Place Enclosing Distances)

variable {known : List Occurrence} {distances : Distances} {sub other : Runner}

/-- The runners do tasks at places alike, and keep scopes and environments together. -/
def SteadyRunners (known : List Occurrence) (distances : Distances) (sub other : Runner) : Prop :=
  ∀ place task machine, Stands known distances place machine → task.Belongs known place →
    Steady known (sub task) (other task) machine (task.Leaves place)

section

variable (hsub : SteadyRunners known distances sub other) {place : Place} {machine : Machine}
  (hstands : Stands known distances place machine)

include hsub hstands

/-! ## Operands -/

theorem operand_steady {e : Expr} (hbelongs : (Task.evaluate e).Belongs known place) :
    Steady known (sub (.evaluate e)) (other (.evaluate e)) machine fun _ _ => True :=
  hsub place (.evaluate e) machine hstands hbelongs

theorem operands_steady {es : List Expr} (hbelongs : (Task.evaluateAll es).Belongs known place) :
    Steady known (sub (.evaluateAll es)) (other (.evaluateAll es)) machine fun _ _ => True :=
  hsub place (.evaluateAll es) machine hstands hbelongs

theorem evaluateLogical_steady {left right : Expr} (operator : Token)
    (hleft : (Task.evaluate left).Belongs known place)
    (hright : (Task.evaluate right).Belongs known place) :
    Steady known (evaluateLogical sub left operator right)
      (evaluateLogical other left operator right) machine fun _ _ => True := by
  refine (operand_steady hsub hstands hleft).bind fun value after hkept _ => ?_
  refine Proceeds.ite (fun _ => Steady.pure hkept.heap True.intro) fun _ => ?_
  exact operand_steady hsub (hstands.kept hkept) hright

theorem evaluateGet_steady {object : Expr} (name : Token)
    (hobject : (Task.evaluate object).Belongs known place) :
    Steady known (evaluateGet sub object name) (evaluateGet other object name) machine
      fun _ _ => True := by
  refine (operand_steady hsub hstands hobject).bind fun value after hkept _ => ?_
  cases value with
  | instance_ receiver =>
      refine (Steady.heap hkept.heap).bind ?_
      rintro _ last hkept' ⟨rfl, rfl⟩
      cases hproperty : last.heap.property? receiver name.lexeme with
      | none => exact Steady.fail _ _ hkept'.heap
      | some property =>
          cases property with
          | field value => exact Steady.pure hkept'.heap True.intro
          | method method =>
              obtain ⟨hgrows, hcongruent⟩ :=
                hkept'.heap.boundMethod (hkept'.heap.property? hproperty) receiver
              exact (Steady.allocate hgrows hcongruent).mono fun _ _ _ _ => True.intro
  | _ => exact Steady.fail _ _ hkept.heap

theorem evaluateSet_steady {object value : Expr} (name : Token)
    (hobject : (Task.evaluate object).Belongs known place)
    (hvalue : (Task.evaluate value).Belongs known place) :
    Steady known (evaluateSet sub object name value) (evaluateSet other object name value) machine
      fun _ _ => True := by
  refine (operand_steady hsub hstands hobject).bind fun target after hkept _ => ?_
  have hstands' := hstands.kept hkept
  cases target with
  | instance_ receiver =>
      refine (operand_steady hsub hstands' hvalue).bind fun value last hkept' _ => ?_
      refine (Steady.update ?_ (hkept'.heap.setField receiver name.lexeme value)).bind ?_
      · exact Heap.Grows.of_environments rfl
      · intro _ _ hset _
        exact Steady.pure hset.heap True.intro
  | _ => exact Steady.fail _ _ hkept.heap

end

/-! ## Calls -/

theorem bindParameters_spec {heap : Heap} (hcongruent : heap.Congruent known) {place : EnvironmentId}
    (hplace : place < heap.environments.size) {parameters : List Token} {arguments : List Value}
    (hlength : parameters.length ≤ arguments.length) :
    heap.Grows (bindParameters place parameters arguments heap) ∧
      (bindParameters place parameters arguments heap).Congruent known ∧
        ∀ name ∈ parameters.map Token.lexeme,
          ((bindParameters place parameters arguments heap).binding? place name).isSome := by
  induction parameters generalizing heap arguments with
  | nil => exact ⟨.refl _, hcongruent, by simp⟩
  | cons parameter rest ih =>
      cases arguments with
      | nil => simp at hlength
      | cons argument arguments =>
          let next := heap.define place parameter.lexeme argument
          obtain ⟨hgrows, hlater, hnames⟩ := @ih next (hcongruent.define _ _ _)
            (by rwa [Heap.size_define]) arguments (by simpa using hlength)
          refine ⟨(Heap.Grows.define heap _ _ _).trans hgrows, hlater, ?_⟩
          intro name hname
          rcases List.mem_cons.mp hname with rfl | hname
          · refine hgrows.bound place parameter.lexeme ?_
            rw [Heap.binding?_define_self hplace]
            rfl
          · exact hnames name hname

section

variable (hsub : SteadyRunners known distances sub other) {machine : Machine}
  (hheap : machine.heap.Congruent known) (hdistances : machine.distances = distances)

include hsub hheap hdistances

/-- A call runs the body in an environment for the function's scope, which binds the parameters. -/
theorem callClosure_steady {closure : Closure} {arguments : List Value}
    (hplaced : closure.Placed known machine.heap)
    (hlength : closure.arity ≤ arguments.length) :
    Steady known (callClosure sub closure arguments) (callClosure other closure arguments) machine
      fun _ _ => True := by
  obtain ⟨place, form, hidle, hscopes, hsites, hformed⟩ := hplaced
  obtain ⟨⟨name, parameters, body⟩, environment, isInitializer⟩ := closure
  let region := Region.function ⟨name, parameters, body⟩
  refine (Steady.allocate (Heap.Grows.child _ _ _) (hheap.child _ _)).bind ?_
  rintro inner after hchild ⟨rfl, rfl⟩
  have hinner : (machine.heap.child environment (some region)).1 <
      (machine.heap.child environment (some region)).2.environments.size := by
    rw [Heap.size_child]
    exact Nat.lt_succ_self _
  obtain ⟨hgrows, hlater, hnames⟩ := bindParameters_spec hchild.heap hinner hlength
  refine (Steady.update hgrows hlater).bind ?_
  rintro _ after hbound rfl
  have hstands : Stands known distances
      ((place.enterFunction form ⟨name, parameters, body⟩).declare (parameters.map Token.lexeme))
      ({ machine with
        heap := bindParameters (machine.heap.child environment (some region)).1 parameters arguments
          (machine.heap.child environment (some region)).2
        environment := (machine.heap.child environment (some region)).1 }) :=
    ⟨hlater, hdistances, ((hscopes.child region place.path).grows hgrows).declare hnames⟩
  rw [FunctionDecl.sites, List.append_subset] at hsites
  refine (Steady.within (hsub _ (.executeAll body) _ hstands ⟨hsites.2, hformed, hidle⟩)).bind ?_
  intro flow last hrun _
  refine Proceeds.ite (fun _ => ?_) fun _ => ?_
  · refine (Steady.heap hrun.heap).bind ?_
    rintro _ _ hread ⟨rfl, rfl⟩
    exact Steady.pure hread.heap True.intro
  · cases flow with
    | normal => exact Steady.pure hrun.heap True.intro
    | returned value => exact Steady.pure hrun.heap True.intro

/-- An instance is initialized by a method that was bound to it. -/
theorem construct_steady {id : ClassId} {arguments : List Value}
    (hlength : machine.heap.arity (.class_ id) ≤ arguments.length) :
    Steady known (construct sub id arguments) (construct other id arguments) machine
      fun _ _ => True := by
  refine (Steady.allocate (Heap.Grows.of_environments rfl) (hheap.addInstance id)).bind ?_
  rintro receiver after hadded ⟨-, rfl⟩
  refine (Steady.heap hadded.heap).bind ?_
  rintro _ after hread ⟨rfl, rfl⟩
  have hsame : (machine.heap.addInstance id).2.initializer? id = machine.heap.initializer? id :=
    @Heap.findMethod?_of_classes machine.heap (machine.heap.addInstance id).2 rfl id "init"
  simp only [hsame]
  cases hmethod : machine.heap.initializer? id with
  | none => exact Steady.pure hread.heap True.intro
  | some method =>
      rw [← hsame] at hmethod
      obtain ⟨hgrows, hbound, hplaced⟩ :=
        hread.heap.bindThis (hread.heap.findMethod? hmethod) receiver
      refine (Steady.allocate hgrows hbound).bind ?_
      rintro closure after hkept ⟨rfl, rfl⟩
      have harity : method.arity ≤ arguments.length := by
        rw [hsame] at hmethod
        simpa [Heap.arity, hmethod] using hlength
      have hsame := hkept.distances.trans (hread.distances.trans hadded.distances)
      refine (callClosure_steady hsub hbound (hsame.trans hdistances) hplaced harity).bind ?_
      intro _ _ hcalled _
      exact Steady.pure hcalled.heap True.intro

theorem invoke_steady {callee : Heap.Callable} {arguments : List Value}
    (hplaced : ∀ closure, callee = .closure closure → closure.Placed known machine.heap)
    (hlength : machine.heap.arity callee ≤ arguments.length) :
    Steady known (invoke sub callee arguments) (invoke other callee arguments) machine
      fun _ _ => True := by
  cases callee with
  | native native => cases native with
    | clock => exact Proceeds.of_ok rfl ⟨hheap, .refl _, rfl, rfl⟩ True.intro
  | closure closure => exact callClosure_steady hsub hheap hdistances (hplaced closure rfl) hlength
  | class_ id => exact construct_steady hsub hheap hdistances hlength

end

section

variable (hsub : SteadyRunners known distances sub other) {place : Place} {machine : Machine}
  (hstands : Stands known distances place machine)

include hsub hstands

theorem evaluateCall_steady {callee : Expr} (paren : Token) {arguments : List Expr}
    (hcallee : (Task.evaluate callee).Belongs known place)
    (harguments : (Task.evaluateAll arguments).Belongs known place) :
    Steady known (evaluateCall sub callee paren arguments)
      (evaluateCall other callee paren arguments) machine fun _ _ => True := by
  refine (operand_steady hsub hstands hcallee).bind fun callee after hkept _ => ?_
  refine (operands_steady hsub (hstands.kept hkept) harguments).bind fun values last hkept' _ => ?_
  have hstands' := (hstands.kept hkept).kept hkept'
  refine (Steady.heap hkept'.heap).bind ?_
  rintro _ machine hread ⟨rfl, rfl⟩
  cases hcallable : machine.heap.callable? callee with
  | none => exact Steady.fail _ _ hread.heap
  | some callable =>
      refine (Steady.heap hread.heap).bind ?_
      rintro _ machine hread ⟨rfl, rfl⟩
      refine Proceeds.ite (fun _ => Steady.fail _ _ hread.heap) fun hlength => ?_
      refine (Steady.get hread.heap).bind ?_
      rintro _ machine hread ⟨rfl, rfl⟩
      refine Proceeds.ite (fun _ => Steady.fail _ _ hread.heap) fun _ => ?_
      let started : Machine := { machine with callDepth := machine.callDepth + 1 }
      have hheap : started.heap.Congruent known := hread.heap
      have hdistances : started.distances = distances := hstands'.distances
      refine Steady.nested (invoke_steady hsub hheap hdistances ?_ (Nat.le_of_not_lt hlength))
      rintro closure rfl
      exact hread.heap.callable? hcallable

end

/-! ## Names -/

theorem writeVariable_steady {machine : Machine} (hheap : machine.heap.Congruent known)
    (node : NodeId) (name : Token) (value : Value) :
    Steady known (writeVariable node name value) (writeVariable node name value) machine
      fun _ _ => True := by
  refine (Steady.get hheap).bind ?_
  rintro _ machine hread ⟨rfl, rfl⟩
  cases machine.distances[node]? with
  | some distance =>
      exact (Steady.update (Heap.Grows.define _ _ _ _) (hread.heap.define _ _ _)).mono
        fun _ _ _ _ => True.intro
  | none => exact Steady.assign _ _ _ hread.heap

theorem readSuper_steady {machine : Machine} (hheap : machine.heap.Congruent known)
    (node : NodeId) (keyword method : Token) :
    Steady known (readSuper node keyword method) (readSuper node keyword method) machine
      fun _ _ => True := by
  refine (Steady.get hheap).bind ?_
  rintro _ machine hread ⟨rfl, rfl⟩
  split
  · exact Steady.fail _ _ hread.heap
  · split
    · split
      · split
        · next found hfound =>
            obtain ⟨hgrows, hcongruent⟩ := hread.heap.boundMethod (hread.heap.findMethod? hfound) _
            exact (Steady.allocate hgrows hcongruent).mono fun _ _ _ _ => True.intro
        · exact Steady.fail _ _ hread.heap
      · exact Steady.fail _ _ hread.heap
    · exact Steady.fail _ _ hread.heap

/-! ## All expressions -/

section

variable (hsub : SteadyRunners known distances sub other) {place : Place} {machine : Machine}
  (hstands : Stands known distances place machine)

include hsub hstands

theorem evaluate_steady {e : Expr} (hbelongs : (Task.evaluate e).Belongs known place) :
    Steady known (evaluate sub e) (evaluate other e) machine fun _ _ => True := by
  obtain ⟨hknown, hformed, hfits⟩ := hbelongs
  have hheap := hstands.heap
  -- an operand has its sites among those of the expression, and the shape that it asks for
  have hoperand : ∀ inner : Expr, inner.sites place ⊆ known → inner.Formed Token.Spelled →
      (Task.evaluate inner).Belongs known place := fun _ hsites hshape => ⟨hsites, hshape, hfits⟩
  rw [Task.Formed] at hformed
  simp only [Task.sites, Expr.sites] at hknown
  cases e with
  | literal id value => exact Steady.pure hheap True.intro
  | grouping id inner => exact operand_steady hsub hstands (hoperand inner hknown hformed)
  | unary id operator operand =>
      have hinner := hoperand operand hknown hformed.2
      refine (operand_steady hsub hstands hinner).bind fun _ _ hkept _ => ?_
      exact (Steady.unchanging (.unary _ _) hkept.heap).mono fun _ _ _ _ => True.intro
  | binary id left operator right =>
      rw [Expr.uses, List.map_append, List.append_subset] at hknown
      have hleft := hoperand left hknown.1 hformed.1
      have hright := hoperand right hknown.2 hformed.2.2
      refine (operand_steady hsub hstands hleft).bind fun _ _ hkept _ => ?_
      refine (operand_steady hsub (hstands.kept hkept) hright).bind fun _ _ hkept _ => ?_
      exact (Steady.unchanging (.binary _ _ _) hkept.heap).mono fun _ _ _ _ => True.intro
  | logical id left operator right =>
      rw [Expr.uses, List.map_append, List.append_subset] at hknown
      exact evaluateLogical_steady hsub hstands operator (hoperand left hknown.1 hformed.1)
        (hoperand right hknown.2 hformed.2.2)
  | var id name =>
      exact (Steady.unchanging (.readVariable _ _) hheap).mono fun _ _ _ _ => True.intro
  | assign id name value =>
      rw [Expr.uses, List.map_cons, List.cons_subset] at hknown
      have hinner := hoperand value hknown.2 hformed.2
      refine (operand_steady hsub hstands hinner).bind fun value _ hkept _ => ?_
      refine (writeVariable_steady hkept.heap id name value).bind fun _ _ hwritten _ => ?_
      exact Steady.pure hwritten.heap True.intro
  | call id callee paren arguments =>
      rw [Expr.uses, List.map_append, List.append_subset] at hknown
      exact evaluateCall_steady hsub hstands paren (hoperand callee hknown.1 hformed.1)
        ⟨hknown.2, hformed.2, hfits⟩
  | get id object name =>
      exact evaluateGet_steady hsub hstands name (hoperand object hknown hformed.1)
  | set id object name value =>
      rw [Expr.uses, List.map_append, List.append_subset] at hknown
      exact evaluateSet_steady hsub hstands name (hoperand object hknown.1 hformed.1)
        (hoperand value hknown.2 hformed.2.2)
  | super_ id keyword method => exact readSuper_steady hheap id keyword method
  | this_ id keyword =>
      exact (Steady.unchanging (.readVariable _ _) hheap).mono fun _ _ _ _ => True.intro

theorem evaluateAll_steady {es : List Expr} (hbelongs : (Task.evaluateAll es).Belongs known place) :
    Steady known (evaluateAll sub es) (evaluateAll other es) machine fun _ _ => True := by
  obtain ⟨hknown, hformed, hfits⟩ := hbelongs
  cases es with
  | nil => exact Steady.pure hstands.heap True.intro
  | cons e rest =>
      rw [Task.sites, Expr.sitesAll, Expr.usesAll, List.map_append, List.append_subset] at hknown
      have hfirst : (Task.evaluate e).Belongs known place := ⟨hknown.1, hformed.1, hfits⟩
      have hrest : (Task.evaluateAll rest).Belongs known place := ⟨hknown.2, hformed.2, hfits⟩
      refine (operand_steady hsub hstands hfirst).bind fun _ _ hkept _ => ?_
      refine (operands_steady hsub (hstands.kept hkept) hrest).bind fun _ _ hkept _ => ?_
      exact Steady.pure hkept.heap True.intro

end

end Lox.Run
