import Lox.Proofs.Heap.Keyword
import Lox.Proofs.Run.History
import Lox.Proofs.Run.Lookup
import Lox.Proofs.Run.Shape
import Lox.Proofs.Scope.Framing

/-!
# What `this` and `super` stand for

No program binds `this` or `super` anew. A method of the superclass is looked up from the class that
the superclass expression gave when the class around was declared, and bound to the instance that
`this` is at the same place.
-/

namespace Lox.Run

open Scope (Distances Frame Framed Place ScopeFault)

/-! ## Code with identifiers as names -/

/-- The names that a task binds are identifiers. -/
theorem Task.Formed.name_ne {task : Task} (h : task.Formed) {name : String}
    (hname : name ∈ task.names) (keyword : Keyword) : name ≠ keyword.spelling := by
  have hidentifier : ∀ token : Token, token.Is Token.Spelled .identifier →
      token.lexeme ≠ keyword.spelling :=
    fun token htoken => htoken.property.identifier htoken.category keyword
  cases task with
  | evaluate e =>
      cases e with
      | assign id token value =>
          obtain rfl : name = token.lexeme := by simpa [Task.names] using hname
          exact hidentifier token h.1
      | _ => simp [Task.names] at hname
  | execute s =>
      cases s with
      | var token value | class_ token superclass methods =>
          obtain rfl : name = token.lexeme := by simpa [Task.names] using hname
          exact hidentifier token h.1
      | function declaration =>
          obtain ⟨token, parameters, body⟩ := declaration
          obtain rfl : name = token.lexeme := by simpa [Task.names] using hname
          exact hidentifier token h.1
      | _ => simp [Task.names] at hname
  | _ => simp [Task.names] at hname

/-- The shape of a function's parameters and body. -/
def Spelled (declaration : FunctionDecl) : Prop :=
  Token.NameAll Token.Spelled declaration.parameters ∧
    Stmt.FormedAll Token.Spelled declaration.body

/-- The code that binds no keyword. -/
def Code.spelled : Code where
  task := Task.Formed
  name name := ∀ keyword : Keyword, name ≠ keyword.spelling
  declaration := Spelled
  part h hpart := Task.formed_iff.mpr ((Task.formed_iff.mp h).part hpart)
  names h _ hname := h.name_ne hname
  declarations h _ hmade := (Task.formed_iff.mp h).declaration hmade
  body h := h.2
  parameters h parameter hmem :=
    let hname := h.1 parameter hmem
    hname.property.identifier hname.category
  empty := ⟨fun _ hmem => (List.not_mem_nil hmem).elim, True.intro⟩

/-! ## The past of a machine -/

/-- While the programs were run one after the other, and the machine became what it is, the run of
one of them came to a task with so much fuel left. -/
inductive Past (clock : Nat → Float) (sink : Sink) :
    Machine → NodeId → List (List Stmt) → (rest : Nat) → Task → Machine → Prop where
  | now {machine moment : Machine} {nextId last : NodeId} {programs : List (List Stmt)}
      {source : String} {program : List Stmt} {distances : Distances} {fuel rest : Nat}
      {task : Task} :
      Fed clock sink machine nextId programs → Accepted source nextId program distances last →
        Comes fuel (.executeAll program) (machine.learn distances) rest task moment →
          Past clock sink (Outcome.machine (interpret fuel program distances machine)) last
            (programs ++ [program]) rest task moment
  | before {machine moment : Machine} {nextId last : NodeId} {programs : List (List Stmt)}
      {source : String} {program : List Stmt} {distances : Distances} {rest : Nat} {task : Task}
      (fuel : Nat) :
      Past clock sink machine nextId programs rest task moment →
        Accepted source nextId program distances last →
          Past clock sink (Outcome.machine (interpret fuel program distances machine)) last
            (programs ++ [program]) rest task moment

/-- A machine whose current environment binds a name to `nil`. -/
def Machine.naming (machine : Machine) (name : Token) : Machine :=
  { machine with heap := machine.heap.define machine.environment name.lexeme .nil }

/-- The declaration of a class with these methods was executed in the past: its superclass
expression gave the class `parent`, and its methods were given the environment `place`. -/
def Inherited (past : (rest : Nat) → Task → Machine → Prop) (place : EnvironmentId)
    (methods : List FunctionDecl) (parent : ClassId) : Prop :=
  ∃ rest name superclass declared evaluated entered,
    past (rest + 1) (.execute (.class_ name (some superclass) methods)) declared ∧
      Task.run rest (.evaluate superclass) (declared.naming name) = .ok (.class_ parent) evaluated ∧
        methodEnvironment (some parent) methods evaluated = .ok place entered

theorem Inherited.mono {past wider : (rest : Nat) → Task → Machine → Prop} {place : EnvironmentId}
    {methods : List FunctionDecl} {parent : ClassId} (h : Inherited past place methods parent)
    (hwider : ∀ rest task moment, past rest task moment → wider rest task moment) :
    Inherited wider place methods parent := by
  obtain ⟨rest, name, superclass, declared, evaluated, entered, hpast, hrun⟩ := h
  exact ⟨rest, name, superclass, declared, evaluated, entered, hwider _ _ _ hpast, hrun⟩

variable {clock : Nat → Float} {sink : Sink} {machine : Machine} {nextId last : NodeId}
  {programs : List (List Stmt)} {source : String} {program : List Stmt} {distances : Distances}

/-- The run of a further program. -/
def programHistory (hfed : Fed clock sink machine nextId programs)
    (haccepted : Accepted source nextId program distances last) (fuel : Nat) : History where
  code := .spelled
  recorded := Inherited (Past clock sink (Outcome.machine (interpret fuel program distances machine))
    last (programs ++ [program]))
  visited := Comes fuel (.executeAll program) (machine.learn distances)
  inside := Comes.asks
  records hvisited hvalue :=
    ⟨_, _, _, _, _, _, .now hfed haccepted hvisited, hvalue, rfl⟩

theorem not_name_this (hfed : Fed clock sink machine nextId programs)
    (haccepted : Accepted source nextId program distances last) (fuel : Nat) :
    ¬(programHistory hfed haccepted fuel).rules.name "this" :=
  fun hname => hname .this_ rfl

theorem not_name_super (hfed : Fed clock sink machine nextId programs)
    (haccepted : Accepted source nextId program distances last) (fuel : Nat) :
    ¬(programHistory hfed haccepted fuel).rules.name "super" :=
  fun hname => hname .super_ rfl

/-- The heap at the end of a program is that at the end of its last statement. -/
theorem heap_interpret (fuel : Nat) (program : List Stmt) (distances : Distances)
    (machine : Machine) :
    (Outcome.machine (interpret fuel program distances machine)).heap =
      (Outcome.machine (Task.run fuel (.executeAll program) (machine.learn distances))).heap := by
  obtain ⟨output, hend⟩ := machine_interpret fuel program distances machine
  rw [hend]

/-- All functions bind identifiers only, and the environments of `this` and `super` bind these. -/
structure Settled (past : (rest : Nat) → Task → Machine → Prop) (heap : Heap) : Prop where
  lexical : heap.Lexical (Inherited past)
  sound : ∀ recorded, heap.Sound (Code.spelled.rules recorded)

/-- So it is between two programs. -/
theorem Fed.settled (h : Fed clock sink machine nextId programs) :
    Settled (Past clock sink machine nextId programs) machine.heap := by
  induction h with
  | start => exact ⟨Heap.lexical_fresh, fun _ => .fresh Code.spelled.empty⟩
  | @feed machine nextId last programs source program distances fuel hfed haccepted ih =>
      have hbegins : (programHistory hfed haccepted fuel).Begins fuel (.executeAll program)
          (machine.learn distances) := ⟨.here, haccepted.checked.formed, ih.sound _⟩
      have hchanges := hbegins.evolves.heap
      rw [← heap_interpret] at hchanges
      refine ⟨Heap.Lexical.changes ?_ (not_name_this hfed haccepted fuel)
        (not_name_super hfed haccepted fuel) hchanges, fun _ => ?_⟩
      · exact ih.lexical.mono fun place methods id hmade =>
          hmade.mono fun _ _ _ hpast => .before fuel hpast haccepted
      · have hlater := (ih.sound _).changes hchanges
        exact ⟨hlater.functions, hlater.methods⟩

section

variable (hfed : Fed clock sink machine nextId programs)
  (haccepted : Accepted source nextId program distances last) {fuel rest : Nat} {task : Task}
  {moment : Machine}

include hfed haccepted

theorem program_begins (fuel : Nat) :
    (programHistory hfed haccepted fuel).Begins fuel (.executeAll program)
      (machine.learn distances) :=
  ⟨.here, haccepted.checked.formed, hfed.settled.sound _⟩

/-- So it is at every moment of the run of a program. -/
theorem Comes.settled (h : Comes fuel (.executeAll program) (machine.learn distances) rest task moment) :
    Settled (Past clock sink (Outcome.machine (interpret fuel program distances machine)) last
      (programs ++ [program])) moment.heap := by
  obtain ⟨hbegins, -, hbefore, -⟩ := (program_begins hfed haccepted fuel).comes h
  refine ⟨Heap.Lexical.changes ?_ (not_name_this hfed haccepted fuel)
    (not_name_super hfed haccepted fuel) hbefore, fun _ => ?_⟩
  · exact hfed.settled.lexical.mono fun place methods id hmade =>
      hmade.mono fun _ _ _ hpast => .before fuel hpast haccepted
  · exact ⟨hbegins.sound.functions, hbegins.sound.methods⟩

end

/-! ## Bindings that stay -/

/-- The environments of one heap keep their bindings of `this` and `super` in another. -/
def KeepsKeywords (heap later : Heap) : Prop :=
  ∀ place < heap.environments.size, later.binding? place "this" = heap.binding? place "this" ∧
    later.binding? place "super" = heap.binding? place "super"

section

variable (hfed : Fed clock sink machine nextId programs)
  (haccepted : Accepted source nextId program distances last) {fuel rest : Nat} {task : Task}
  {moment : Machine}

include hfed haccepted

theorem keepsKeywords_of_changes {heap later : Heap}
    (h : Heap.Changes (programHistory hfed haccepted fuel).rules heap later) :
    KeepsKeywords heap later :=
  fun _ hplace => ⟨h.binding?_eq (not_name_this hfed haccepted fuel) hplace,
    h.binding?_eq (not_name_super hfed haccepted fuel) hplace⟩

/-- A moment of a run keeps the bindings from before the run, and the end keeps those of the
moment. -/
theorem Visits.keepsKeywords
    (h : Visits fuel (.executeAll program) (machine.learn distances) task moment) :
    KeepsKeywords machine.heap moment.heap ∧
      KeepsKeywords moment.heap (Outcome.machine (interpret fuel program distances machine)).heap := by
  obtain ⟨rest, hcomes⟩ := h.comes
  obtain ⟨hbegins, -, hbefore, hafter⟩ := (program_begins hfed haccepted fuel).comes hcomes
  refine ⟨keepsKeywords_of_changes hfed haccepted hbefore, ?_⟩
  rw [heap_interpret]
  exact keepsKeywords_of_changes hfed haccepted (hbegins.evolves.heap.trans hafter)

end

/-! ## Reading a method of the superclass -/

theorem programsSites_append (programs : List (List Stmt)) (program : List Stmt) :
    programsSites (programs ++ [program]) = programsSites programs ++ programSites program := by
  rw [programsSites, programsSites, List.flatMap_append, List.flatMap_singleton]

theorem Fed.superFramed (h : Fed clock sink machine nextId programs)
    (haccepted : Accepted source nextId program distances last) :
    SuperFramed (programsSites (programs ++ [program])) := by
  rw [programsSites_append]
  refine superFramed_append ?_ (superFramed_program haccepted.checked.formed)
  clear haccepted
  induction h with
  | start => exact fun _ _ hmem => by cases hmem
  | feed _ _ haccepted ih =>
      rw [programsSites_append]
      exact superFramed_append ih (superFramed_program haccepted.checked.formed)

/-- What a method of the superclass stands for at a moment, for a use of `super` at a place. The
nearest scope of `super` is that of the methods of a class among which the use is, its environment
was made for them when the class was declared, and the one directly inside it binds `this`. The
method is looked up from the class that was the superclass then, and bound to that instance. -/
structure ReadsSuper (past : (rest : Nat) → Task → Machine → Prop) (place : Place) (node : NodeId)
    (keyword method : Token) (moment : Machine) (distance : Nat) (methods : List FunctionDecl)
    (target : EnvironmentId) (parent : ClassId) (receiver : InstanceId) : Prop where
  matched : moment.distances[node]? = some (distance + 1)
  nearest : place.distance? "super" = some (distance + 1) ∧ place.distance? "this" = some distance
  among : ⟨.super_, keyword, node⟩ ∈ FunctionDecl.usesAll methods
  scope : moment.AtScope place (distance + 1) target
  region : (moment.heap.environment target).region = some (.superclass methods)
  inherited : Inherited past target methods parent
  this_ : moment.heap.getAt? moment.environment distance "this" = some (.instance_ receiver)
  result : ∀ sub, evaluate sub (.super_ node keyword method) moment =
    match moment.heap.findMethod? parent method.lexeme with
    | some found => .ok (moment.heap.boundMethod found receiver).1
        { moment with heap := (moment.heap.boundMethod found receiver).2 }
    | none => .error (.fault ⟨.undefinedProperty method.lexeme, method⟩) moment

theorem readSuper_eq {node : NodeId} {keyword method : Token} {moment : Machine} {distance : Nat}
    {parent : ClassId} {receiver : InstanceId}
    (hdistance : moment.distances[node]? = some (distance + 1))
    (hsuper : moment.heap.getAt? moment.environment (distance + 1) "super" = some (.class_ parent))
    (hthis : moment.heap.getAt? moment.environment distance "this" = some (.instance_ receiver)) :
    readSuper node keyword method moment =
      match moment.heap.findMethod? parent method.lexeme with
      | some found => .ok (moment.heap.boundMethod found receiver).1
          { moment with heap := (moment.heap.boundMethod found receiver).2 }
      | none => .error (.fault ⟨.undefinedProperty method.lexeme, method⟩) moment := by
  simp only [readSuper, bind, EStateM.bind, get_eq, hdistance, hsuper, Nat.add_sub_cancel, hthis]
  cases moment.heap.findMethod? parent method.lexeme <;> rfl

/-- The scopes around a use of `super`: the nearest one of `super` is that of the methods of a class
among which the use is, and the nearest one of `this` is directly inside it. -/
structure HoldsSuper (place : Place) (u : Use) (distance : Nat) (inner outer : Frame)
    (method : FunctionDecl) (methods : List FunctionDecl) : Prop where
  receiver : place.scopes[distance]? = some inner
  receiverRegion : inner.region = .receiver method
  parent : place.scopes[distance + 1]? = some outer
  parentRegion : outer.region = .superclass methods
  among : u ∈ FunctionDecl.usesAll methods
  this_ : place.distance? "this" = some distance
  super_ : place.distance? "super" = some (distance + 1)
  matched : place.matched? u = some (distance + 1)

theorem holdsSuper_of_belongs {known : List Occurrence} {place : Place} {node : NodeId}
    {keyword method : Token}
    (hbelongs : (Task.evaluate (.super_ node keyword method)).Belongs known place)
    (hframed : Framed ⟨.super_, keyword, node⟩ place.scopes place.classes)
    (hlawful : ∀ fault : ScopeFault,
      fault.arisesAt ⟨place, .use ⟨.super_, keyword, node⟩⟩ = false) :
    ∃ distance receiver parent declaration methods,
      HoldsSuper place ⟨.super_, keyword, node⟩ distance receiver parent declaration methods := by
  obtain ⟨superclass, outer, hclasses⟩ := classes_of_lawful hlawful
  obtain ⟨distance, declaration, methods, receiver, parent, hreceiver, hreceiverRegion, hparent,
    hparentRegion, hamong, hthis, hsuper⟩ := hframed.nearest (congrArg List.head? hclasses)
  -- the name in an initializer is no keyword, so that only scopes count
  have hidle : ∀ word : Keyword, place.initializing ≠ some word.spelling :=
    fun word heq => (hbelongs.fits _ heq).2 word rfl
  have hthis' : place.distance? "this" = some distance :=
    (if_neg (hidle .this_)).trans hthis
  have hsuper' : place.distance? "super" = some (distance + 1) :=
    (if_neg (hidle .super_)).trans hsuper
  have hkeyword : keyword.lexeme = "super" :=
    hbelongs.formed.1.property.keyword hbelongs.formed.1.category
  refine ⟨distance, receiver, parent, declaration, methods, hreceiver, hreceiverRegion, hparent,
    hparentRegion, hamong, hthis', hsuper', ?_⟩
  rw [Place.matched?, Place.classKind, hclasses, hkeyword]
  exact hsuper'

theorem Machine.AtScope.region_eq {moment : Machine} {place : Place} {distance : Nat}
    {target : EnvironmentId} {frame : Frame} (h : moment.AtScope place distance target)
    (hframe : place.scopes[distance]? = some frame) :
    (moment.heap.environment target).region = some frame.region := by
  obtain ⟨-, found, hfound, hregion⟩ := h
  rw [hframe] at hfound
  cases hfound
  exact hregion

section

variable (hfed : Fed clock sink machine nextId programs)
  (haccepted : Accepted source nextId program distances last) {fuel : Nat} {node : NodeId}
  {keyword method : Token} {moment : Machine}

include hfed haccepted

/-- A place of the texts is known for everything to which the run comes. -/
theorem Visits.stands {task : Task}
    (h : Visits fuel (.executeAll program) (machine.learn distances) task moment) :
    ∃ place, Stands (programsSites (programs ++ [program])) (machine.learn distances).distances place
        moment ∧
      task.Belongs (programsSites (programs ++ [program])) place := by
  rw [programsSites_append]
  exact (congruence_stepwise _ _).visits_before (congruence_outOfFuel _ _) h
    (hfed.informed.begins haccepted.checked)

/-- Whenever a run evaluates a use of `super`, it reads a method of the superclass. -/
theorem Visits.readsSuper
    (h : Visits fuel (.executeAll program) (machine.learn distances)
      (.evaluate (.super_ node keyword method)) moment) :
    ∃ place distance methods target parent receiver,
      ⟨place, .use ⟨.super_, keyword, node⟩⟩ ∈ programsSites (programs ++ [program]) ∧
        Realises moment.heap place.scopes moment.environment ∧
          ReadsSuper (Past clock sink (Outcome.machine (interpret fuel program distances machine))
            last (programs ++ [program])) place node keyword method moment distance methods target
              parent receiver := by
  have hlearned := hfed.informed.learn haccepted.checked
  rw [← programsSites_append] at hlearned
  obtain ⟨rest, hcomes⟩ := h.comes
  have hsettled := hcomes.settled hfed haccepted
  obtain ⟨place, hstands, hbelongs⟩ := h.stands hfed haccepted
  have hmem : ⟨place, .use ⟨.super_, keyword, node⟩⟩ ∈ programsSites (programs ++ [program]) :=
    hbelongs.known (List.mem_map_of_mem List.mem_cons_self)
  obtain ⟨distance, receiverFrame, superFrame, declaration, methods, hstatic⟩ :=
    holdsSuper_of_belongs hbelongs (hfed.superFramed haccepted place _ hmem rfl)
      (hlearned.lawful _ hmem)
  have hmatched : moment.distances[node]? = some (distance + 1) := by
    rw [hstands.distances, hlearned.matched place _ hmem, hstatic.matched]
  -- the environments of both scopes bind what they were made for
  obtain ⟨target, hscope, -⟩ := hstands.atScope hstatic.parent
  obtain ⟨inner, hinner, -⟩ := hstands.atScope hstatic.receiver
  have hregion := hscope.region_eq hstatic.parent
  rw [hstatic.parentRegion] at hregion
  have hregion' := hinner.region_eq hstatic.receiver
  rw [hstatic.receiverRegion] at hregion'
  obtain ⟨parent, hparent, hinherited⟩ := hsettled.lexical target _ hregion
  obtain ⟨receiver, hreceiver⟩ := hsettled.lexical inner _ hregion'
  have hthis : moment.heap.getAt? moment.environment distance "this" = some (.instance_ receiver) := by
    rw [Heap.getAt?, hinner.walk.ancestor_eq, hreceiver]
  have hsuper : moment.heap.getAt? moment.environment (distance + 1) "super" =
      some (.class_ parent) := by
    rw [Heap.getAt?, hscope.walk.ancestor_eq, hparent]
  exact ⟨place, distance, methods, target, parent, receiver, hmem, hstands.scopes, hmatched,
    ⟨hstatic.super_, hstatic.this_⟩, hstatic.among, hscope, hregion, hinherited, hthis,
    fun _ => readSuper_eq hmatched hsuper hthis⟩

end

/-! ## What is never unresolved -/

/-- Only a use of `super` can be unresolved. -/
theorem superUse_of_unresolved {task : Task} {error : RuntimeError} (h : error ∈ task.faults)
    (hfault : error.fault = .unresolvedSuper ∨ error.fault = .unresolvedThis) :
    ∃ node keyword method, task = .evaluate (.super_ node keyword method) := by
  have hother : (∀ error ∈ task.faults, error.fault ≠ .unresolvedSuper ∧
      error.fault ≠ .unresolvedThis) → False :=
    fun hall => hfault.elim (hall error h).1 (hall error h).2
  cases task with
  | evaluate e =>
      cases e with
      | super_ node keyword method => exact ⟨node, keyword, method, rfl⟩
      | _ => exact (hother (by simp [Task.faults, Heap.undefined])).elim
  | execute s =>
      cases s with
      | class_ name superclass methods =>
          cases superclass <;> exact (hother (by simp [Task.faults, Heap.undefined])).elim
      | _ => exact (hother (by simp [Task.faults])).elim
  | _ => exact (hother (by simp [Task.faults])).elim

theorem ReadsSuper.resolved {past : (rest : Nat) → Task → Machine → Prop} {place : Place}
    {node : NodeId} {keyword method : Token} {moment final : Machine} {distance : Nat}
    {methods : List FunctionDecl} {target : EnvironmentId} {parent : ClassId}
    {receiver : InstanceId} {sub : Runner} {error : RuntimeError}
    (h : ReadsSuper past place node keyword method moment distance methods target parent receiver)
    (hend : evaluate sub (.super_ node keyword method) moment = .error (.fault error) final) :
    error.fault ≠ .unresolvedSuper ∧ error.fault ≠ .unresolvedThis := by
  rw [h.result] at hend
  cases hfound : moment.heap.findMethod? parent method.lexeme with
  | some found => simp [hfound] at hend
  | none =>
      simp only [hfound, EStateM.Result.error.injEq, Interrupt.fault.injEq] at hend
      rw [← hend.1]
      simp

/-- A program that fails does so in its run, unless the sink refuses its output. -/
theorem run_of_interpret_fault {fuel : Nat} {error : RuntimeError} {final : Machine}
    (h : interpret fuel program distances machine = .error (.fault error) final) :
    Task.run fuel (.executeAll program) (machine.learn distances) = .error (.fault error) final := by
  rw [interpret_eq] at h
  cases hrun : Task.run fuel (.executeAll program) (machine.learn distances) with
  | ok flow after =>
      simp only [hrun, flush, settle] at h
      split at h <;> cases h
  | error interrupt after =>
      simp only [hrun] at h
      cases h
      rfl

/-! ## What a call asks for -/

/-- The machine inside a call of a function. -/
def Machine.inCall (machine : Machine) (closure : Closure) (arguments : List Value) : Machine :=
  let opened := machine.heap.child closure.environment (some (.function closure.declaration))
  { machine with
    heap := bindParameters opened.1 closure.declaration.parameters arguments opened.2
    environment := opened.1
    callDepth := machine.callDepth + 1 }

theorem call_asks_body {sub : Runner} {id : NodeId} {callee : Expr} {paren : Token}
    {arguments : List Expr} {machine evaluated ready : Machine} {value : Value}
    {values : List Value} {closure : Closure}
    (hcallee : sub (.evaluate callee) machine = .ok value evaluated)
    (harguments : sub (.evaluateAll arguments) evaluated = .ok values ready)
    (hcallable : ready.heap.callable? value = some (.closure closure))
    (harity : closure.arity ≤ values.length) (hroom : ready.callDepth < maxCallDepth) :
    Asks sub (.evaluate (.call id callee paren arguments)) machine
      (.executeAll closure.declaration.body) (ready.inCall closure values) := by
  refine asks_of_interrupt fun other interrupt hsame hinner => ?_
  have hcallee' : other (.evaluate callee) machine = .ok value evaluated := by
    rw [hsame _ _ (by simp), hcallee]
  have harguments' : other (.evaluateAll arguments) evaluated = .ok values ready := by
    rw [hsame _ _ (by simp), harguments]
  have hlength : ¬values.length < ready.heap.arity (.closure closure) := Nat.not_lt_of_le harity
  have hheap : heap ready = .ok ready.heap ready := rfl
  have hget : (get : Action Machine) ready = .ok ready ready := rfl
  have hallocate {α : Type} (change : Heap → α × Heap) (before : Machine) :
      allocate change before =
        .ok (change before.heap).1 { before with heap := (change before.heap).2 } := rfl
  have hupdate (change : Heap → Heap) (before : Machine) :
      update change before = .ok () { before with heap := change before.heap } := rfl
  simp only [Task.step, evaluate, evaluateCall, Bind.bind, EStateM.bind, hcallee', harguments',
    hheap, hcallable, hlength, if_false, hget, Nat.not_le_of_lt hroom, nested, invoke, callClosure,
    hallocate, hupdate, within]
  simp only [Machine.inCall] at hinner
  simp only [hinner]
  exact ⟨_, rfl⟩

/-! ## The meaning of `this` and `super` -/

/-- In every run of programs without static errors on one machine, the environments keep their
bindings of `this` and `super`; whenever a use of `super` is evaluated, it reads a method of the
class that was the superclass when the class around was declared, bound to what `this` is; and no
use of `this` or `super` is unresolved. -/
theorem this_and_super_are_lexical (hfed : Fed clock sink machine nextId programs)
    (haccepted : Accepted source nextId program distances last) (fuel : Nat) :
    (∀ task moment, Visits fuel (.executeAll program) (machine.learn distances) task moment →
      KeepsKeywords machine.heap moment.heap ∧
        KeepsKeywords moment.heap
          (Outcome.machine (interpret fuel program distances machine)).heap) ∧
    (∀ node keyword method moment,
      Visits fuel (.executeAll program) (machine.learn distances)
        (.evaluate (.super_ node keyword method)) moment →
      ∃ place distance methods target parent receiver,
        ⟨place, .use ⟨.super_, keyword, node⟩⟩ ∈ programsSites (programs ++ [program]) ∧
          Realises moment.heap place.scopes moment.environment ∧
            ReadsSuper (Past clock sink
              (Outcome.machine (interpret fuel program distances machine)) last
                (programs ++ [program])) place node keyword method moment distance methods target
                  parent receiver) ∧
    ∀ error final, interpret fuel program distances machine = .error (.fault error) final →
      error.fault ≠ .unresolvedSuper ∧ error.fault ≠ .unresolvedThis := by
  refine ⟨fun _ _ h => h.keepsKeywords hfed haccepted,
    fun _ _ _ _ h => h.readsSuper hfed haccepted, fun error final hend => ?_⟩
  obtain ⟨rest, task, moment, after, hcomes, hrun, harises⟩ :=
    (program_begins hfed haccepted fuel).interrupted (run_of_interpret_fault hend)
  apply Classical.byContradiction
  intro hunresolved
  obtain ⟨node, keyword, method, rfl⟩ := superUse_of_unresolved harises (by
    by_cases h : error.fault = .unresolvedSuper
    · exact .inl h
    · exact .inr (Classical.not_not.mp fun h' => hunresolved ⟨h, h'⟩))
  cases rest with
  | zero => cases hrun
  | succ rest =>
      obtain ⟨place, distance, methods, target, parent, receiver, -, -, hreads⟩ :=
        hcomes.visits.readsSuper hfed haccepted
      exact hunresolved (ReadsSuper.resolved hreads (show evaluate (Task.run rest) _ _ = _ from hrun))

/-- A use of `super` in a method. -/
def superRead : Expr := .super_ 1 ⟨.keyword .super_, "super", 1⟩ ⟨.identifier, "m", 1⟩

/-- The method around it. -/
def superMethod : FunctionDecl := ⟨⟨.identifier, "m", 1⟩, [], [.expression superRead]⟩

/-- The class of the method that it reads. -/
def baseClass : Stmt := .class_ ⟨.identifier, "A", 1⟩ none [⟨⟨.identifier, "m", 1⟩, [], []⟩]

/-- The class of the method around it. -/
def derivedClass : Stmt :=
  .class_ ⟨.identifier, "B", 1⟩ (some (.var 0 ⟨.identifier, "A", 1⟩)) [superMethod]

/-- The method as a property of a new instance. -/
def boundRead : Expr :=
  .get 4 (.call 3 (.var 2 ⟨.identifier, "B", 1⟩) ⟨.symbol .rightParen, ")", 1⟩ [])
    ⟨.identifier, "m", 1⟩

/-- Both classes, and a call of the method. -/
def superProgram : List Stmt :=
  [baseClass, derivedClass,
    .expression (.call 5 boundRead ⟨.symbol .rightParen, ")", 1⟩ [])]

/-- A new machine that knows the distances of the program. -/
def superStart : Machine :=
  (Machine.start (fun _ => 0) .unlimited).learn (Scope.resolve superProgram).1

/-- The machine after both classes are declared. -/
def superDeclared : Machine :=
  Outcome.machine (Task.run 8 (.execute derivedClass)
    (Outcome.machine (Task.run 9 (.execute baseClass) superStart)))

/-- The machine when it comes to the use. -/
def superMoment : Machine :=
  (Outcome.machine (Task.run 5 (.evaluate boundRead) superDeclared)).inCall
    ⟨superMethod, 2, false⟩ []

theorem this_and_super_are_lexical_derived :
    Accepted "class A \x7bm() \x7b\x7d\x7d class B < A \x7bm() \x7bsuper.m;\x7d\x7d B().m();" 0
        superProgram (Scope.resolve superProgram).1 6 ∧
      Visits 10 (.executeAll superProgram) superStart (.evaluate superRead) superMoment ∧
        ∃ place distance methods target parent receiver,
          ⟨place, .use ⟨.super_, ⟨.keyword .super_, "super", 1⟩, 1⟩⟩ ∈
              programsSites [superProgram] ∧
            Realises superMoment.heap place.scopes superMoment.environment ∧
              ReadsSuper (Past (fun _ => 0) .unlimited
                (Outcome.machine (interpret 10 superProgram (Scope.resolve superProgram).1
                  (.start (fun _ => 0) .unlimited))) 6 [superProgram]) place 1
                    ⟨.keyword .super_, "super", 1⟩ ⟨.identifier, "m", 1⟩ superMoment distance
                      methods target parent receiver := by
  have haccepted : Accepted
      "class A \x7bm() \x7b\x7d\x7d class B < A \x7bm() \x7bsuper.m;\x7d\x7d B().m();" 0
      superProgram (Scope.resolve superProgram).1 6 := ⟨by rfl, by rfl, by rfl⟩
  have hbase : Task.run 9 (.execute baseClass) superStart =
      .ok .normal (Outcome.machine (Task.run 9 (.execute baseClass) superStart)) := by rfl
  have hderived : Task.run 8 (.execute derivedClass)
      (Outcome.machine (Task.run 9 (.execute baseClass) superStart)) =
        .ok .normal superDeclared := by rfl
  have hcallee : Task.run 5 (.evaluate boundRead) superDeclared = .ok (.function 0)
      (Outcome.machine (Task.run 5 (.evaluate boundRead) superDeclared)) := by rfl
  have hvisits : Visits 10 (.executeAll superProgram) superStart (.evaluate superRead)
      superMoment :=
    .inside (executeAll_asks_rest hbase _) <| .inside (executeAll_asks_rest hderived _) <|
      .inside (executeAll_asks_first _ _ _ _) <| .inside (expression_asks_value _ _ _) <|
        .inside (call_asks_body hcallee (by rfl) (by rfl) (by decide) (by decide)) <|
          .inside (executeAll_asks_first _ _ _ _) <|
            .inside (expression_asks_value _ _ _) .here
  exact ⟨haccepted, hvisits,
    (this_and_super_are_lexical .start haccepted 10).2.1 _ _ _ _ hvisits⟩

end Lox.Run
