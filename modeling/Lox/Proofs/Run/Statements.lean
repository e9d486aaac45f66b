import Lox.Proofs.Run.Expressions

/-!
# Statements keep scopes and environments together

The steps of statements. A statement that ends normally leaves the names that it declares bound in
the current environment, as the place after it says.
-/

namespace Lox.Run

open Scope (Frame Place Enclosing Distances)

variable {known : List Occurrence} {distances : Distances} {sub other : Runner}

/-! ## Places beside one another -/

theorem declareIn_nil (frames : List Frame) : Place.declareIn [] frames = frames := by
  cases frames <;> simp [Place.declareIn]

theorem scopes_initializerOf (place : Place) (name : String) :
    (place.initializerOf name).scopes = place.scopes := by
  unfold Place.initializerOf
  split <;> rfl

theorem Stands.congr {place beside : Place} {machine : Machine}
    (h : Stands known distances place machine) (hscopes : beside.scopes = place.scopes) :
    Stands known distances beside machine :=
  ⟨h.heap, h.distances, by rw [hscopes]; exact h.scopes⟩

/-- A statement that declares nothing leaves the place as it is. -/
theorem Stands.leaves {place : Place} {machine : Machine} (h : Stands known distances place machine)
    {s : Stmt} (hs : s.declares = []) (flow : Flow) : (Task.execute s).Leaves place flow machine := by
  cases flow with
  | normal =>
      change Realises machine.heap (Place.declareIn s.declares place.scopes) machine.environment
      rw [hs, declareIn_nil]
      exact h.scopes
  | returned value => exact True.intro

/-- The names that were bound count as declared. -/
theorem Stands.declare {place : Place} {machine : Machine} (h : Stands known distances place machine)
    {names : List String}
    (hnames : ∀ name ∈ names, (machine.heap.binding? machine.environment name).isSome) :
    Stands known distances (place.declare names) machine :=
  ⟨h.heap, h.distances, h.scopes.declare hnames⟩

/-- An environment that is current is on the heap. -/
theorem Realises.lt_size {heap : Heap} {frames : List Frame} {id : EnvironmentId}
    (h : Realises heap frames id) (hroot : 0 < heap.environments.size) :
    id < heap.environments.size := by
  cases frames with
  | nil =>
      rw [show id = Heap.globals from h]
      exact hroot
  | cons frame outer =>
      obtain ⟨-, -, around, haround, -⟩ := h
      exact Heap.lt_size_of_enclosing haround

theorem Stands.inside {place : Place} {machine : Machine} (h : Stands known distances place machine) :
    machine.environment < machine.heap.environments.size :=
  Realises.lt_size h.scopes h.heap.nonempty

/-- A name that is bound in the current environment is declared from then on. -/
theorem Stands.define {place : Place} {machine : Machine} (h : Stands known distances place machine)
    (name : String) (value : Value) :
    Stands known distances (place.declare [name])
      { machine with heap := machine.heap.define machine.environment name value } := by
  have hdefined : Stands known distances place
      { machine with heap := machine.heap.define machine.environment name value } :=
    ⟨h.heap.define _ _ _, h.distances, h.scopes.grows (Heap.Grows.define _ _ _ _)⟩
  refine hdefined.declare fun other hother => ?_
  rw [List.mem_singleton] at hother
  rw [Heap.binding?_define _ _ _ _ _ _ h.inside, if_pos ⟨rfl, hother.symm⟩]
  rfl

section

variable (hsub : SteadyRunners known distances sub other) {place : Place} {machine : Machine}
  (hstands : Stands known distances place machine)

include hsub hstands

theorem evaluateOpt_steady {e : Option Expr}
    (hknown : Expr.sitesOpt place e ⊆ known) (hformed : Expr.FormedOpt Token.Spelled e)
    (hfits : (Task.evaluateAll []).Fits place) :
    Steady known (evaluateOpt sub e) (evaluateOpt other e) machine fun _ _ => True := by
  cases e with
  | none => exact Steady.pure hstands.heap True.intro
  | some e => exact operand_steady hsub hstands ⟨hknown, hformed, hfits⟩

theorem executeVar_steady {name : Token} {initializer : Option Expr}
    (hbelongs : (Task.execute (.var name initializer)).Belongs known place) :
    Steady known (execute sub (.var name initializer)) (execute other (.var name initializer)) machine
      ((Task.execute (.var name initializer)).Leaves place) := by
  obtain ⟨hknown, ⟨hname, hformed⟩, hidle⟩ := hbelongs
  change place.initializing = none at hidle
  rw [Task.sites, Stmt.sites, List.cons_subset] at hknown
  have hinside := hstands.congr (scopes_initializerOf place name.lexeme)
  have hfits : (Task.evaluateAll []).Fits (place.initializerOf name.lexeme) := by
    intro other hother
    unfold Place.initializerOf at hother
    split at hother
    · rw [hidle] at hother
      cases hother
    · next hlocal =>
        cases hother
        refine ⟨?_, hname.property.identifier hname.category⟩
        rw [scopes_initializerOf]
        simpa using hlocal
  refine (evaluateOpt_steady hsub hinside hknown.2 hformed hfits).bind fun value after hkept _ => ?_
  have hafter := hstands.kept hkept
  refine (Steady.define name.lexeme value hkept.heap).bind ?_
  rintro _ last hdefined rfl
  exact Steady.pure hdefined.heap (hafter.define name.lexeme value).scopes

theorem executeBlock_steady {body : List Stmt}
    (hbelongs : (Task.execute (.block body)).Belongs known place) :
    Steady known (execute sub (.block body)) (execute other (.block body)) machine
      ((Task.execute (.block body)).Leaves place) := by
  obtain ⟨hknown, hformed, hidle⟩ := hbelongs
  refine (Steady.here hstands.heap).bind ?_
  rintro _ machine hread ⟨rfl, rfl⟩
  refine (Steady.allocate (Heap.Grows.child _ _ _) (hread.heap.child _ _)).bind ?_
  rintro inner after hchild ⟨rfl, rfl⟩
  let entered : Machine :=
    { machine with
      heap := (machine.heap.child machine.environment (some (.block body))).2
      environment := (machine.heap.child machine.environment (some (.block body))).1 }
  have hinside : Stands known distances (place.enter (.block body) []) entered :=
    ⟨hchild.heap, hstands.distances, hstands.scopes.child _ _⟩
  have hbody : (Task.executeAll body).Belongs known (place.enter (.block body) []) :=
    ⟨hknown, hformed, hidle⟩
  refine (Steady.within (hsub _ _ entered hinside hbody)).mono fun flow last hkept _ => ?_
  exact ((hstands.kept hchild).kept hkept).leaves rfl flow

omit hsub in
/-- The name of a function is bound after its closure was made, and counts for it as well. -/
theorem executeFunction_steady {declaration : FunctionDecl}
    (hbelongs : (Task.execute (.function declaration)).Belongs known place) :
    Steady known (execute sub (.function declaration)) (execute other (.function declaration))
      machine ((Task.execute (.function declaration)).Leaves place) := by
  obtain ⟨hknown, hformed, hidle⟩ := hbelongs
  rw [Task.sites, Stmt.sites, List.cons_subset] at hknown
  let value := Value.function machine.heap.functions.size
  let name := declaration.name.lexeme
  let closure : Closure := ⟨declaration, machine.environment, false⟩
  have hdefined := hstands.define name value
  have hplaced : closure.Placed known (machine.heap.define machine.environment name value) := by
    refine ⟨place.declare [name], .function, hidle, hdefined.scopes, hknown.2, ?_⟩
    obtain ⟨name, parameters, body⟩ := declaration
    exact hformed.2.2
  -- the binding and the closure may be made in either order
  let heap := ((machine.heap.define machine.environment name value).addFunction closure).2
  have hgrows : (machine.heap.define machine.environment name value).Grows heap :=
    Heap.Grows.of_environments rfl
  have hkept : Kept known machine { machine with heap := heap } :=
    ⟨hdefined.heap.addFunction hplaced, (Heap.Grows.define _ _ _ _).trans hgrows, rfl, rfl⟩
  exact Proceeds.of_ok rfl hkept (hdefined.scopes.grows hgrows)

/-- A branch has the scopes of the statement that it is a part of. -/
theorem branch_steady {s : Stmt} (branch : Place) (hscopes : branch.scopes = place.scopes)
    (hbelongs : (Task.execute s).Belongs known branch) :
    Steady known (sub (.execute s)) (other (.execute s)) machine fun _ after =>
      Stands known distances place after := by
  refine (hsub branch (.execute s) machine (hstands.congr hscopes) hbelongs).mono ?_
  intro _ _ hkept _
  exact hstands.kept hkept

theorem executeWhile_steady {condition : Expr} {body : Stmt}
    (hbelongs : (Task.execute (.while_ condition body)).Belongs known place) :
    Steady known (executeWhile sub condition body) (executeWhile other condition body) machine
      ((Task.execute (.while_ condition body)).Leaves place) := by
  obtain ⟨hknown, ⟨hcondition, hplain, hbody⟩, hidle⟩ := hbelongs
  have hnone : (Stmt.while_ condition body).declares = [] := hbody.declares_eq_nil hplain
  have hagain : (Task.execute (.while_ condition body)).Belongs known place :=
    ⟨hknown, ⟨hcondition, hplain, hbody⟩, hidle⟩
  rw [Task.sites, Stmt.sites, List.append_subset] at hknown
  have hfits : (Task.evaluate condition).Fits place := by
    intro name hname
    rw [hidle] at hname
    cases hname
  refine (operand_steady hsub hstands ⟨hknown.1, hcondition, hfits⟩).bind fun value _ hkept _ => ?_
  have hstands' := hstands.kept hkept
  refine Proceeds.ite (fun _ => ?_) fun _ => Steady.pure hkept.heap (hstands'.leaves hnone _)
  have hinside : (Task.execute body).Belongs known (place.branch 0) := ⟨hknown.2, hbody, hidle⟩
  refine (branch_steady hsub hstands' (place.branch 0) rfl hinside).bind fun flow after hkept hafter => ?_
  cases flow with
  | normal => exact hsub place _ after hafter hagain
  | returned value => exact Steady.pure hkept.heap True.intro

end

/-! ## Classes -/

/-- Every method of a class has its sites among those of all, at a place with the same scopes. -/
theorem sites_of_mem_methods {methods : List FunctionDecl} {method : FunctionDecl}
    (hmem : method ∈ methods) (place : Place) (hidle : place.initializing = none) :
    ∃ beside : Place, beside.scopes = place.scopes ∧ beside.initializing = none ∧
      method.sites (beside.enter (.receiver method) ["this"]) .method ⊆
        FunctionDecl.sitesAll place methods := by
  induction methods generalizing place with
  | nil => cases hmem
  | cons first rest ih =>
      rw [FunctionDecl.sitesAll]
      rcases List.mem_cons.mp hmem with rfl | hmem
      · exact ⟨place, rfl, hidle, List.subset_append_left _ _⟩
      · obtain ⟨beside, hscopes, hidle', hsites⟩ := ih hmem place.next hidle
        exact ⟨beside, hscopes, hidle', List.Subset.trans hsites (List.subset_append_right _ _)⟩

theorem formed_of_mem_methods {methods : List FunctionDecl} {method : FunctionDecl}
    (hmem : method ∈ methods) (hformed : FunctionDecl.FormedAll Token.Spelled methods) :
    Stmt.FormedAll Token.Spelled method.body := by
  induction methods with
  | nil => cases hmem
  | cons first rest ih =>
      obtain ⟨hfirst, hrest⟩ := hformed
      rcases List.mem_cons.mp hmem with rfl | hmem
      · obtain ⟨name, parameters, body⟩ := method
        exact hfirst.2.2
      · exact ih hmem hrest

/-- A table of methods holds nothing else than its methods, all in one environment. -/
theorem methodTable_get? {environment : EnvironmentId} {methods : List FunctionDecl} {name : String}
    {closure : Closure} (h : (methodTable environment methods).get? name = some closure) :
    closure.declaration ∈ methods ∧ closure.environment = environment := by
  have hfold : ∀ (methods : List FunctionDecl) (table : Table Closure),
      (methods.foldl (fun table method => table.insert method.name.lexeme
        ⟨method, environment, method.isInitializer⟩) table).get? name = some closure →
      (closure.declaration ∈ methods ∧ closure.environment = environment) ∨
        table.get? name = some closure := by
    intro methods
    induction methods with
    | nil => exact fun _ h => .inr h
    | cons method rest ih =>
        intro table h
        rcases ih _ h with ⟨hmem, henvironment⟩ | h
        · exact .inl ⟨List.mem_cons_of_mem _ hmem, henvironment⟩
        · rw [Table.get?_insert] at h
          split at h
          · cases h
            exact .inl ⟨List.mem_cons_self, rfl⟩
          · exact .inr h
  rcases hfold methods .empty h with h | h
  · exact h
  · cases h

/-- The scope of `super`, if there is one, has an environment that binds it. -/
theorem methodEnvironment_steady {place : Place} {machine : Machine}
    (hstands : Stands known distances place machine) {superclass : Option Expr}
    {id : Option ClassId} (hid : id.isSome = superclass.isSome) (methods : List FunctionDecl) :
    Steady known (methodEnvironment id methods) (methodEnvironment id methods) machine
      fun environment after =>
        Realises after.heap (place.enterMethods superclass methods).scopes environment := by
  refine (Steady.here hstands.heap).bind ?_
  rintro _ machine hread ⟨rfl, rfl⟩
  cases id with
  | none =>
      refine Steady.pure hread.heap ?_
      rw [Place.enterMethods, if_neg (by simp [← hid])]
      exact hstands.scopes
  | some id =>
      refine (Steady.allocate (Heap.Grows.child _ _ _) (hread.heap.child _ _)).bind ?_
      rintro inner after hchild ⟨rfl, rfl⟩
      refine (Steady.update (Heap.Grows.define _ _ _ _) (hchild.heap.define _ _ _)).bind ?_
      rintro _ after hdefined rfl
      refine Steady.pure hdefined.heap ?_
      rw [Place.enterMethods, if_pos (by simp [← hid])]
      exact hstands.scopes.childWith (.superclass methods) place.path "super" (.class_ id)

section

variable (hsub : SteadyRunners known distances sub other) {place : Place} {machine : Machine}
  (hstands : Stands known distances place machine)

include hsub hstands

theorem evaluateSuperclass_steady (name : Token) {superclass : Option Expr}
    (hknown : Expr.sitesOpt place superclass ⊆ known)
    (hformed : Expr.FormedOpt Token.Spelled superclass)
    (hfits : (Task.evaluateAll []).Fits place) :
    Steady known (evaluateSuperclass sub name superclass) (evaluateSuperclass other name superclass)
      machine fun id _ => id.isSome = superclass.isSome := by
  cases superclass with
  | none => exact Steady.pure hstands.heap rfl
  | some e =>
      refine (operand_steady hsub hstands ⟨hknown, hformed, hfits⟩).bind fun value _ hkept _ => ?_
      cases value with
      | class_ id => exact Steady.pure hkept.heap rfl
      | _ => exact Steady.fail _ _ hkept.heap

/-- The name of a class is bound before its superclass and methods, which may speak of it. -/
theorem executeClass_steady {name : Token} {superclass : Option Expr} {methods : List FunctionDecl}
    (hbelongs : (Task.execute (.class_ name superclass methods)).Belongs known place) :
    Steady known (executeClass sub name superclass methods)
      (executeClass other name superclass methods) machine fun _ after =>
        Stands known distances (place.declare [name.lexeme]) after := by
  obtain ⟨hknown, ⟨hname, hsuper, hmethods⟩, hidle⟩ := hbelongs
  change place.initializing = none at hidle
  rw [Task.sites, Stmt.sites, List.cons_subset, List.append_subset, List.append_subset] at hknown
  obtain ⟨-, ⟨-, hsuperKnown⟩, hmethodsKnown⟩ := hknown
  let inside := (place.declare [name.lexeme]).enterClass superclass
  have hfits : (Task.evaluateAll []).Fits inside := by
    intro other hother
    change place.initializing = some other at hother
    rw [hidle] at hother
    cases hother
  refine (Steady.define name.lexeme .nil hstands.heap).bind ?_
  rintro _ after hdefined rfl
  have hinside := (hstands.define name.lexeme .nil).congr (show inside.scopes = _ from rfl)
  refine (evaluateSuperclass_steady hsub hinside name hsuperKnown hsuper.formed hfits).bind ?_
  intro id after hsuperclass hid
  have hinside := hinside.kept hsuperclass
  refine (methodEnvironment_steady hinside hid methods).bind ?_
  intro environment after hentered hscopes
  have hinside := hinside.kept hentered
  have htable : ∀ name method, (methodTable environment methods).get? name = some method →
      method.Unbound known after.heap := by
    intro name method hmethod
    obtain ⟨hmem, henvironment⟩ := methodTable_get? hmethod
    have hidle' : (inside.enterMethods superclass methods).initializing = none := by
      rw [Place.enterMethods]
      split <;> exact hidle
    obtain ⟨beside, hbeside, hidle'', hsites⟩ := sites_of_mem_methods hmem _ hidle'
    refine ⟨beside, hidle'', ?_, List.Subset.trans hsites hmethodsKnown, formed_of_mem_methods hmem hmethods⟩
    rw [hbeside, henvironment]
    exact hscopes
  refine (Steady.allocate (Heap.Grows.of_environments rfl) (hentered.heap.addClass htable)).bind ?_
  rintro id after hadded ⟨rfl, rfl⟩
  have hinside := hinside.kept hadded
  refine (Steady.here hadded.heap).bind ?_
  rintro _ after hread ⟨rfl, rfl⟩
  refine (Steady.assign _ _ _ hread.heap).mono ?_
  intro _ _ hassigned _
  exact (hinside.kept hassigned).congr rfl

/-! ## All statements -/

theorem execute_steady {s : Stmt} (hbelongs : (Task.execute s).Belongs known place) :
    Steady known (execute sub s) (execute other s) machine ((Task.execute s).Leaves place) := by
  have hidle : place.initializing = none := hbelongs.fits
  have hfits : (Task.evaluateAll []).Fits place := by
    intro name hname
    rw [hidle] at hname
    cases hname
  cases s with
  | expression value =>
      refine (operand_steady hsub hstands ⟨hbelongs.known, hbelongs.formed, hfits⟩).bind ?_
      intro _ _ hkept _
      exact Steady.pure hkept.heap ((hstands.kept hkept).leaves rfl _)
  | print value =>
      refine (operand_steady hsub hstands ⟨hbelongs.known, hbelongs.formed, hfits⟩).bind ?_
      intro value _ hkept _
      have hstands := hstands.kept hkept
      refine (Steady.heap hkept.heap).bind ?_
      rintro _ machine hread ⟨rfl, rfl⟩
      refine (Steady.settle _ hread.heap).bind ?_
      intro _ _ hkept _
      exact Steady.pure hkept.heap ((hstands.kept hkept).leaves rfl _)
  | var name initializer => exact executeVar_steady hsub hstands hbelongs
  | block body => exact executeBlock_steady hsub hstands hbelongs
  | function declaration => exact executeFunction_steady hstands hbelongs
  | class_ name superclass methods =>
      refine (executeClass_steady hsub hstands hbelongs).bind ?_
      intro _ _ hkept hafter
      exact Steady.pure hkept.heap hafter.scopes
  | ifThen condition thenBranch =>
      obtain ⟨hknown, ⟨hcondition, hplain, hthen⟩, _⟩ := hbelongs
      have hnone : (Stmt.ifThen condition thenBranch).declares = [] := hthen.declares_eq_nil hplain
      rw [Task.sites, Stmt.sites, List.append_subset] at hknown
      have hinside : (Task.execute thenBranch).Belongs known (place.branch 0) :=
        ⟨hknown.2, hthen, hidle⟩
      refine (operand_steady hsub hstands ⟨hknown.1, hcondition, hfits⟩).bind fun _ _ hkept _ => ?_
      have hstands := hstands.kept hkept
      refine Proceeds.ite (fun _ => ?_) fun _ => Steady.pure hkept.heap (hstands.leaves hnone _)
      exact (branch_steady hsub hstands (place.branch 0) rfl hinside).mono fun _ _ _ hafter =>
        hafter.leaves hnone _
  | ifElse condition thenBranch elseBranch =>
      obtain ⟨hknown, ⟨hcondition, ⟨hplain, hthen⟩, hplain', helse⟩, _⟩ := hbelongs
      have hthenNone := hthen.declares_eq_nil hplain
      have hnone : (Stmt.ifElse condition thenBranch elseBranch).declares = [] := by
        rw [Stmt.declares, hthenNone, helse.declares_eq_nil hplain', List.append_nil]
      rw [Task.sites, Stmt.sites, List.append_subset, List.append_subset] at hknown
      obtain ⟨⟨hconditionKnown, hthenKnown⟩, helseKnown⟩ := hknown
      have hfirst : (Task.execute thenBranch).Belongs known (place.branch 0) :=
        ⟨hthenKnown, hthen, hidle⟩
      have hsecond : (Task.execute elseBranch).Belongs known
          ((place.declare thenBranch.declares).branch 1) := ⟨helseKnown, helse, hidle⟩
      have hscopes : ((place.declare thenBranch.declares).branch 1).scopes = place.scopes := by
        change Place.declareIn thenBranch.declares place.scopes = place.scopes
        rw [hthenNone, declareIn_nil]
      refine (operand_steady hsub hstands ⟨hconditionKnown, hcondition, hfits⟩).bind ?_
      intro _ _ hkept _
      have hstands := hstands.kept hkept
      refine Proceeds.ite (fun _ => ?_) fun _ => ?_
      · exact (branch_steady hsub hstands (place.branch 0) rfl hfirst).mono
          fun _ _ _ hafter => hafter.leaves hnone _
      · exact (branch_steady hsub hstands _ hscopes hsecond).mono
          fun _ _ _ hafter => hafter.leaves hnone _
  | while_ condition body => exact executeWhile_steady hsub hstands hbelongs
  | return_ keyword value =>
      obtain ⟨hknown, ⟨_, hvalue⟩, _⟩ := hbelongs
      rw [Task.sites, Stmt.sites, List.cons_subset] at hknown
      refine (evaluateOpt_steady hsub hstands hknown.2 hvalue hfits).bind fun _ _ hkept _ => ?_
      exact Steady.pure hkept.heap True.intro

theorem executeAll_steady {statements : List Stmt}
    (hbelongs : (Task.executeAll statements).Belongs known place) :
    Steady known (executeAll sub statements) (executeAll other statements) machine
      fun _ _ => True := by
  obtain ⟨hknown, hformed, hidle⟩ := hbelongs
  cases statements with
  | nil => exact Steady.pure hstands.heap True.intro
  | cons first rest =>
      rw [Task.sites, Stmt.sitesAll, List.append_subset] at hknown
      have hfirst : (Task.execute first).Belongs known place := ⟨hknown.1, hformed.1, hidle⟩
      have hrest : (Task.executeAll rest).Belongs known (place.after first) :=
        ⟨hknown.2, hformed.2, hidle⟩
      refine (hsub place (.execute first) machine hstands hfirst).bind fun flow after hkept hafter => ?_
      cases flow with
      | returned value => exact Steady.pure hkept.heap True.intro
      | normal =>
          have hstands' : Stands known distances (place.after first) after :=
            ⟨hkept.heap, (hstands.kept hkept).distances, hafter⟩
          exact hsub (place.after first) (.executeAll rest) after hstands' hrest

end

/-- Every step keeps scopes and environments together. -/
theorem congruence_stepwise (known : List Occurrence) (distances : Distances) :
    (congruence known distances).Stepwise := by
  intro sub other hkept halike place task machine ⟨hstands, hbelongs⟩
  have hsub : SteadyRunners known distances sub other := fun place task machine hstands hbelongs =>
    ⟨halike place task machine ⟨hstands, hbelongs⟩, hkept place task machine ⟨hstands, hbelongs⟩⟩
  cases task with
  | evaluate e => exact evaluate_steady hsub hstands hbelongs
  | evaluateAll es => exact evaluateAll_steady hsub hstands hbelongs
  | execute s => exact execute_steady hsub hstands hbelongs
  | executeAll statements => exact executeAll_steady hsub hstands hbelongs

end Lox.Run
