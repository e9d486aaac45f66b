import Lox.Proofs.Run.Contract

/-!
# Sinks that get full

A run on a sink that takes the first bytes only is the run on an unlimited sink, up to the byte that
does not fit: there it ends with what was taken so far, wherever it is. Most actions do not look at
the output at all; the others are put together from these and from writing.
-/

namespace Lox.Run

variable {α β : Type} {limit : Nat}

/-! ## Outputs -/

/-- The sink takes everything, and all that was offered was written. -/
structure Machine.Unlimited (machine : Machine) : Prop where
  sink : machine.sink = .unlimited
  offered : machine.output.offered = machine.output.written.size

/-- The bytes that a machine has written. -/
def Machine.bytes (machine : Machine) : List UInt8 :=
  machine.output.written.toList

/-- The machine with another sink and what was offered to it. -/
def Machine.pour (sink : Sink) (output : Output) (machine : Machine) : Machine :=
  { machine with sink := sink, output := output }

/-- The machine with a sink that takes the first bytes only. -/
def Machine.limited (limit : Nat) (machine : Machine) : Machine :=
  machine.pour (.limited (some limit) false) machine.output

/-- The outcome with another sink and what was offered to it. -/
def Outcome.pour (sink : Sink) (output : Output) : Outcome α → Outcome α
  | .ok a after => .ok a (after.pour sink output)
  | .error interrupt after => .error interrupt (after.pour sink output)

/-- The outcome with a sink that takes the first bytes only. -/
def Outcome.limited (limit : Nat) : Outcome α → Outcome α
  | .ok a after => .ok a (after.limited limit)
  | .error interrupt after => .error interrupt (after.limited limit)

theorem settle_taken {offer : Sink → Output → Option String × Output} {machine : Machine}
    {output : Output} (h : offer machine.sink machine.output = (none, output)) :
    settle offer machine = .ok () { machine with output := output } := by
  simp only [settle, h]

theorem settle_refused {offer : Sink → Output → Option String × Output} {machine : Machine}
    {message : String} {output : Output}
    (h : offer machine.sink machine.output = (some message, output)) :
    settle offer machine = .error (.refused message) { machine with output := output } := by
  simp only [settle, h]

theorem offer_unlimited (bytes : List UInt8) (output : Output) :
    Sink.unlimited.offer bytes output =
      (none, { output with
        offered := output.offered + bytes.length
        written := output.written ++ bytes }) := by
  induction bytes generalizing output with
  | nil => simp [Sink.offer]
  | cons byte rest ih =>
      rw [Sink.offer]
      change Sink.unlimited.offer rest _ = _
      rw [ih]
      simp [Nat.add_right_comm, ← Nat.add_assoc]

/-- Bytes that fit are taken as by an unlimited sink. -/
theorem offer_fits (bytes : List UInt8) {output : Output}
    (hfits : output.offered + bytes.length ≤ limit) :
    (Sink.limited (some limit) false).offer bytes output = Sink.unlimited.offer bytes output := by
  induction bytes generalizing output with
  | nil => rfl
  | cons byte rest ih =>
      rw [List.length_cons] at hfits
      have htaken : (Sink.limited (some limit) false).refuseByte output.offered = none :=
        if_neg (by omega)
      rw [Sink.offer, htaken, Sink.offer]
      exact ih (by change output.offered + 1 + rest.length ≤ limit; omega)

/-- Of bytes that do not all fit those are taken that do. -/
theorem offer_full (bytes : List UInt8) {output : Output}
    (hoffered : output.offered = output.written.size) (hroom : output.offered ≤ limit)
    (hfull : limit < output.offered + bytes.length) :
    ∃ after, (Sink.limited (some limit) false).offer bytes output = (some "sink full", after) ∧
      after.written.toList = (output.written.toList ++ bytes).take limit := by
  induction bytes generalizing output with
  | nil => exact absurd hroom (Nat.not_le_of_lt hfull)
  | cons byte rest ih =>
      rw [List.length_cons] at hfull
      by_cases hlast : limit ≤ output.offered
      · have hrefused : (Sink.limited (some limit) false).refuseByte output.offered =
            some "sink full" := if_pos hlast
        have hlength : output.written.toList.length = limit := by
          rw [Array.length_toList]
          omega
        let last : Output := { output with offered := output.offered + 1 }
        exact ⟨last, by rw [Sink.offer, hrefused], (List.take_left' hlength).symm⟩
      · have htaken : (Sink.limited (some limit) false).refuseByte output.offered = none :=
          if_neg hlast
        let next : Output :=
          { output with offered := output.offered + 1, written := output.written.push byte }
        have hnext : next.offered = next.written.size := by simp [next, hoffered]
        obtain ⟨after, hafter, hwritten⟩ := @ih next hnext (by simp only [next]; omega)
          (by simp only [next]; omega)
        refine ⟨after, by rw [Sink.offer, htaken]; exact hafter, ?_⟩
        simpa [next] using hwritten

/-! ## Actions on a sink that gets full -/

/-- The second outcome is the first one with a sink that takes the first bytes only, if those are
all. Otherwise it is the refusal of the first byte that does not fit. -/
inductive Capped (limit : Nat) (outcome : Outcome α) : Outcome α → Prop where
  | fits : outcome.machine.bytes.length ≤ limit → Capped limit outcome (outcome.limited limit)
  | full {after : Machine} : limit < outcome.machine.bytes.length →
      after.bytes = outcome.machine.bytes.take limit →
        Capped limit outcome (.error (.refused "sink full") after)

theorem Capped.put {outcome outcome' : Outcome α} {change change' : Machine → Machine}
    (h : Capped limit outcome outcome') (hbytes : ∀ after, (change after).bytes = after.bytes)
    (hbytes' : ∀ after, (change' after).bytes = after.bytes)
    (hlimited : ∀ after, change' (after.limited limit) = (change after).limited limit) :
    Capped limit (outcome.put change) (outcome'.put change') := by
  cases h with
  | fits hfits =>
      have hsame : (Outcome.limited limit outcome).put change' =
          Outcome.limited limit (outcome.put change) := by
        cases outcome with
        | ok a after => rw [Outcome.limited, Outcome.put, hlimited, Outcome.put, Outcome.limited]
        | error interrupt after =>
            rw [Outcome.limited, Outcome.put, hlimited, Outcome.put, Outcome.limited]
      rw [hsame]
      exact .fits (by rwa [Outcome.machine_put, hbytes])
  | full hfull htake =>
      refine .full ?_ ?_
      · rwa [Outcome.machine_put, hbytes]
      · rw [Outcome.machine_put, hbytes, hbytes']
        exact htake

/-- On an unlimited sink the action adds to what was written, and on one that takes the first bytes
only it is cut there. -/
structure Truncates (action : Action α) (machine : Machine) : Prop where
  unlimited : (Outcome.machine (action machine)).Unlimited
  adds : machine.bytes <+: (Outcome.machine (action machine)).bytes
  capped : ∀ limit, machine.bytes.length ≤ limit →
    Capped limit (action machine) (action (machine.limited limit))

/-- The action is cut wherever it begins. -/
def Truncating (action : Action α) : Prop :=
  ∀ machine, machine.Unlimited → Truncates action machine

/-- The action has nothing to do with the output. -/
def Blind (action : Action α) : Prop :=
  ∀ machine sink output,
    action (machine.pour sink output) = Outcome.pour sink output (action machine)

namespace Blind

theorem truncating {action : Action α} (h : Blind action) : Truncating action := by
  intro machine hunlimited
  have hself : action machine = Outcome.pour machine.sink machine.output (action machine) :=
    h machine machine.sink machine.output
  have hoff : (Outcome.machine (action machine)).sink = machine.sink ∧
      (Outcome.machine (action machine)).output = machine.output := by
    rw [hself]
    cases action machine <;> exact ⟨rfl, rfl⟩
  obtain ⟨hsink, houtput⟩ := hoff
  have hbytes : (Outcome.machine (action machine)).bytes = machine.bytes := by
    rw [Machine.bytes, houtput, Machine.bytes]
  refine ⟨⟨hsink.trans hunlimited.sink, by rw [houtput]; exact hunlimited.offered⟩,
    hbytes ▸ List.prefix_refl _, fun limit hfits => ?_⟩
  have hlimited : action (machine.limited limit) = Outcome.limited limit (action machine) := by
    rw [Machine.limited, h]
    cases hend : action machine with
    | ok a after =>
        have hsame : after.output = machine.output := by rwa [hend] at houtput
        rw [Outcome.pour, Outcome.limited, Machine.limited, hsame]
    | error interrupt after =>
        have hsame : after.output = machine.output := by rwa [hend] at houtput
        rw [Outcome.pour, Outcome.limited, Machine.limited, hsame]
  rw [hlimited]
  exact .fits (by rw [hbytes]; exact hfits)

theorem pure (a : α) : Blind (Pure.pure a) := fun _ _ _ => rfl

theorem throw (interrupt : Interrupt) : Blind (MonadExcept.throw interrupt : Action α) :=
  fun _ _ _ => rfl

theorem fail (fault : RuntimeFault) (token : Token) : Blind (Run.fail fault token : Action α) :=
  fun _ _ _ => rfl

theorem heap : Blind Run.heap := fun _ _ _ => rfl

theorem here : Blind Run.here := fun _ _ _ => rfl

theorem allocate (change : Heap → α × Heap) : Blind (Run.allocate change) := fun _ _ _ => rfl

theorem update (change : Heap → Heap) : Blind (Run.update change) := fun _ _ _ => rfl

theorem readClock : Blind Run.readClock := fun _ _ _ => rfl

theorem bind {first : Action α} {second : α → Action β} (hfirst : Blind first)
    (hsecond : ∀ a, Blind (second a)) : Blind (first >>= second) := by
  intro machine sink output
  simp only [Bind.bind, EStateM.bind, hfirst machine]
  cases first machine with
  | ok a middle => exact hsecond a middle sink output
  | error interrupt middle => rfl

/-- An action that looks at a part of the machine that is not the output. -/
theorem get_bind {second : Machine → Action β} (h : ∀ machine, Blind (second machine))
    (hsecond : ∀ machine sink output, second (machine.pour sink output) = second machine) :
    Blind (MonadState.get >>= second) := by
  intro machine sink output
  change second (machine.pour sink output) (machine.pour sink output) = _
  rw [hsecond]
  exact h machine machine sink output

end Blind

namespace Truncating

theorem pure (a : α) : Truncating (Pure.pure a) := (Blind.pure a).truncating

theorem throw (interrupt : Interrupt) : Truncating (MonadExcept.throw interrupt : Action α) :=
  (Blind.throw interrupt).truncating

theorem fail (fault : RuntimeFault) (token : Token) :
    Truncating (Run.fail fault token : Action α) :=
  (Blind.fail fault token).truncating

theorem heap : Truncating Run.heap := Blind.heap.truncating

theorem here : Truncating Run.here := Blind.here.truncating

theorem allocate (change : Heap → α × Heap) : Truncating (Run.allocate change) :=
  (Blind.allocate change).truncating

theorem update (change : Heap → Heap) : Truncating (Run.update change) :=
  (Blind.update change).truncating

theorem bind {first : Action α} {second : α → Action β} (hfirst : Truncating first)
    (hsecond : ∀ a, Truncating (second a)) : Truncating (first >>= second) := by
  intro machine hunlimited
  obtain ⟨hmiddle, hadds, hcapped⟩ := hfirst machine hunlimited
  cases hend : first machine with
  | error interrupt middle =>
      have hbind : (first >>= second) machine = .error interrupt middle := by
        simp only [Bind.bind, EStateM.bind, hend]
      rw [hend] at hmiddle hadds
      refine ⟨by rwa [hbind], by rwa [hbind], fun limit hfits => ?_⟩
      have hlimited := hcapped limit hfits
      rw [hend] at hlimited
      rw [hbind]
      simp only [Bind.bind, EStateM.bind]
      generalize first (machine.limited limit) = outcome' at hlimited
      cases hlimited with
      | fits hfits => exact .fits hfits
      | full hfull htake => exact .full hfull htake
  | ok a middle =>
      have hbind : (first >>= second) machine = second a middle := by
        simp only [Bind.bind, EStateM.bind, hend]
      rw [hend] at hmiddle hadds
      obtain ⟨hlast, hadds', hcapped'⟩ := hsecond a middle hmiddle
      refine ⟨by rwa [hbind], by rw [hbind]; exact hadds.trans hadds', fun limit hfits => ?_⟩
      have hlimited := hcapped limit hfits
      rw [hend] at hlimited
      rw [hbind]
      simp only [Bind.bind, EStateM.bind]
      generalize first (machine.limited limit) = outcome' at hlimited
      cases hlimited with
      | fits hfits => exact hcapped' limit hfits
      | full hfull htake =>
          -- what comes later does not change the bytes that were taken
          obtain ⟨more, hmore⟩ := hadds'
          have hle : limit ≤ middle.bytes.length := Nat.le_of_lt hfull
          refine .full ?_ ?_
          · rw [← hmore, List.length_append]
            exact Nat.lt_of_lt_of_le hfull (Nat.le_add_right _ _)
          · rw [← hmore, List.take_append_of_le_length hle]
            exact htake

theorem ite {condition : Prop} [Decidable condition] {yes no : Action α} (hyes : Truncating yes)
    (hno : Truncating no) : Truncating (if condition then yes else no) := by
  split
  · exact hyes
  · exact hno

/-- An action that looks at a part of the machine that is not the output. -/
theorem get_bind {second : Machine → Action β} (h : ∀ machine, Truncating (second machine))
    (hblind : ∀ machine sink output, second (machine.pour sink output) = second machine) :
    Truncating (MonadState.get >>= second) := by
  intro machine hunlimited
  obtain ⟨hlast, hadds, hcapped⟩ := h machine machine hunlimited
  refine ⟨hlast, hadds, fun limit hfits => ?_⟩
  change Capped limit (second machine machine)
    (second (machine.limited limit) (machine.limited limit))
  rw [Machine.limited, hblind]
  exact hcapped limit hfits

/-- What is changed at the beginning, and put back at the end, has nothing to do with the output. -/
theorem around {action outer : Action α} (haction : Truncating action)
    (enter : Machine → Machine) (leave : Machine → Machine → Machine)
    (houter : ∀ machine, outer machine = Outcome.put (leave machine) (action (enter machine)))
    (henter : ∀ machine sink output,
      enter (machine.pour sink output) = (enter machine).pour sink output)
    (hleave : ∀ machine after sink output sink' output',
      leave (machine.pour sink' output') (after.pour sink output) =
        (leave machine after).pour sink output) : Truncating outer := by
  intro machine hunlimited
  have hentered : enter machine = (enter machine).pour machine.sink machine.output :=
    henter machine machine.sink machine.output
  have hready : (enter machine).Unlimited := by
    rw [hentered]
    exact ⟨hunlimited.sink, hunlimited.offered⟩
  have hstart : (enter machine).bytes = machine.bytes := by
    rw [hentered]
    rfl
  have hleft (before after : Machine) :
      leave before after = (leave before after).pour after.sink after.output :=
    hleave before after after.sink after.output before.sink before.output
  obtain ⟨hafter, hadds, hcapped⟩ := haction (enter machine) hready
  refine ⟨?_, ?_, fun limit hfits => ?_⟩
  · rw [houter, Outcome.machine_put, hleft]
    exact ⟨hafter.sink, hafter.offered⟩
  · rw [houter, Outcome.machine_put, hleft, ← hstart]
    exact hadds
  · have hsame : enter (machine.limited limit) = (enter machine).limited limit := by
      rw [Machine.limited, henter, hentered]
      rfl
    rw [houter, houter, hsame]
    refine (hcapped limit (by rwa [hstart])).put (fun after => ?_) (fun after => ?_) fun after => ?_
    · rw [hleft]
      rfl
    · rw [hleft]
      rfl
    · have houtput : (leave machine after).output = after.output :=
        (congrArg Machine.output (hleft machine after)).trans rfl
      rw [Machine.limited, Machine.limited, Machine.limited, hleave, houtput]

theorem within (place : EnvironmentId) {action : Action α} (h : Truncating action) :
    Truncating (Run.within place action) := by
  let enter (machine : Machine) : Machine := { machine with environment := place }
  let leave (machine after : Machine) : Machine :=
    { after with environment := machine.environment }
  exact h.around enter leave (within_eq_put place action) (fun _ _ _ => rfl)
    fun _ _ _ _ _ _ => rfl

theorem nested {action : Action α} (h : Truncating action) : Truncating (Run.nested action) := by
  let enter (machine : Machine) : Machine := { machine with callDepth := machine.callDepth + 1 }
  let leave (_ after : Machine) : Machine := { after with callDepth := after.callDepth - 1 }
  exact h.around enter leave (nested_eq_put action) (fun _ _ _ => rfl) fun _ _ _ _ _ _ => rfl

/-- What fits is written. Of the rest the first byte is refused. -/
theorem write (text : String) : Truncating (Run.write text) := by
  intro machine hunlimited
  let bytes := Text.encode text
  let output : Output :=
    { machine.output with
      offered := machine.output.offered + bytes.length
      written := machine.output.written ++ bytes }
  let after : Machine := { machine with output := output }
  have hend : Run.write text machine = .ok () after :=
    settle_taken (by rw [hunlimited.sink, offer_unlimited])
  have hafter : after.bytes = machine.bytes ++ bytes := by
    simp [after, output, Machine.bytes]
  have hlength : machine.bytes.length = machine.output.offered := by
    rw [Machine.bytes, Array.length_toList, hunlimited.offered]
  refine ⟨?_, ?_, fun limit hfits => ?_⟩
  · rw [hend]
    refine ⟨hunlimited.sink, ?_⟩
    change machine.output.offered + bytes.length = after.output.written.size
    rw [← Array.length_toList, ← Machine.bytes, hafter, List.length_append, hlength]
  · rw [hend]
    exact ⟨bytes, hafter.symm⟩
  · have hbound : limit < after.bytes.length ↔ limit < machine.output.offered + bytes.length := by
      rw [hafter, List.length_append, hlength]
    rw [hend]
    by_cases hroom : machine.output.offered + bytes.length ≤ limit
    · have hlimited : Run.write text (machine.limited limit) = .ok () (after.limited limit) :=
        settle_taken (by
          change (Sink.limited (some limit) false).offer bytes machine.output = _
          rw [offer_fits _ hroom, offer_unlimited])
      rw [hlimited]
      exact .fits (Nat.le_of_not_lt fun hfull => Nat.not_lt_of_le hroom (hbound.mp hfull))
    · obtain ⟨last, hlast, hwritten⟩ := offer_full bytes hunlimited.offered (hlength ▸ hfits)
        (Nat.lt_of_not_le hroom)
      have hlimited : Run.write text (machine.limited limit) =
          .error (.refused "sink full") { machine.limited limit with output := last } :=
        settle_refused hlast
      rw [hlimited]
      refine .full (hbound.mpr (Nat.lt_of_not_le hroom)) ?_
      change last.written.toList = after.bytes.take limit
      rw [hafter]
      exact hwritten

/-- Neither sink refuses to flush. -/
theorem flush : Truncating Run.flush := by
  intro machine hunlimited
  let output : Output := { machine.output with flushes := machine.output.flushes + 1 }
  let after : Machine := { machine with output := output }
  have hend : Run.flush machine = .ok () after := settle_taken (by rw [hunlimited.sink]; rfl)
  refine ⟨?_, ?_, fun limit hfits => ?_⟩
  · rw [hend]
    exact ⟨hunlimited.sink, hunlimited.offered⟩
  · rw [hend]
    exact List.prefix_rfl
  · have hlimited : Run.flush (machine.limited limit) = .ok () (after.limited limit) :=
      settle_taken rfl
    rw [hend, hlimited]
    exact .fits hfits

end Truncating

/-! ## Names and operators -/

theorem unary_blind (operator : Token) (operand : Value) : Blind (unary operator operand) := by
  unfold unary
  split
  · exact Blind.pure _
  · exact Blind.fail _ _
  · exact Blind.pure _
  · exact Blind.fail _ _

theorem arithmetic_blind (operator : Token) (a b : Float) : Blind (arithmetic operator a b) := by
  unfold arithmetic
  split <;> first | exact Blind.pure _ | exact Blind.fail _ _

theorem binary_blind (operator : Token) (left right : Value) :
    Blind (binary operator left right) := by
  unfold binary
  split
  · unfold add
    split <;> first | exact Blind.pure _ | exact Blind.fail _ _
  · exact Blind.pure _
  · exact Blind.pure _
  · split
    · exact arithmetic_blind _ _ _
    · exact Blind.fail _ _

theorem lift_blind (outcome : Except RuntimeError α) : Blind (lift outcome) := by
  cases outcome with
  | ok a => exact Blind.pure a
  | error error => exact Blind.throw _

theorem readVariable_blind (node : NodeId) (name : Token) : Blind (readVariable node name) := by
  refine Blind.get_bind (fun machine => ?_) fun _ _ _ => rfl
  split
  · split
    · exact Blind.pure _
    · exact Blind.fail _ _
  · exact lift_blind _

theorem define_blind (name : String) (value : Value) : Blind (define name value) :=
  Blind.here.bind fun _ => Blind.update _

theorem assign_blind (place : EnvironmentId) (name : Token) (value : Value) :
    Blind (assign place name value) := by
  refine Blind.heap.bind fun heap => ?_
  cases heap.binder? place name.lexeme with
  | some binder => exact Blind.update _
  | none => exact Blind.throw _

theorem writeVariable_blind (node : NodeId) (name : Token) (value : Value) :
    Blind (writeVariable node name value) := by
  refine Blind.get_bind (fun machine => ?_) fun _ _ _ => rfl
  split
  · exact Blind.update _
  · exact assign_blind _ _ _

theorem readSuper_blind (node : NodeId) (keyword method : Token) :
    Blind (readSuper node keyword method) := by
  refine Blind.get_bind (fun machine => ?_) fun _ _ _ => rfl
  split
  · exact Blind.fail _ _
  · split
    · split
      · split
        · exact Blind.allocate _
        · exact Blind.fail _ _
      · exact Blind.fail _ _
    · exact Blind.fail _ _

/-! ## Expressions -/

section

variable {sub : Runner} (hsub : ∀ task, Truncating (sub task))

include hsub

theorem evaluateLogical_truncating (left : Expr) (operator : Token) (right : Expr) :
    Truncating (evaluateLogical sub left operator right) :=
  (hsub (.evaluate left)).bind fun _ =>
    Truncating.ite (Truncating.pure _) (hsub (.evaluate right))

theorem evaluateGet_truncating (object : Expr) (name : Token) :
    Truncating (evaluateGet sub object name) := by
  refine (hsub (.evaluate object)).bind fun value => ?_
  cases value with
  | instance_ receiver =>
      refine Truncating.heap.bind fun heap => ?_
      cases heap.property? receiver name.lexeme with
      | none => exact Truncating.fail _ _
      | some property =>
          cases property with
          | field value => exact Truncating.pure _
          | method method => exact Truncating.allocate _
  | _ => exact Truncating.fail _ _

theorem evaluateSet_truncating (object : Expr) (name : Token) (value : Expr) :
    Truncating (evaluateSet sub object name value) := by
  refine (hsub (.evaluate object)).bind fun target => ?_
  cases target with
  | instance_ receiver =>
      exact (hsub (.evaluate value)).bind fun _ => (Truncating.update _).bind fun _ =>
        Truncating.pure _
  | _ => exact Truncating.fail _ _

theorem callClosure_truncating (closure : Closure) (arguments : List Value) :
    Truncating (callClosure sub closure arguments) := by
  refine (Truncating.allocate _).bind fun place => (Truncating.update _).bind fun _ =>
    ((hsub (.executeAll closure.declaration.body)).within place).bind fun flow => ?_
  refine Truncating.ite (Truncating.heap.bind fun _ => Truncating.pure _) ?_
  cases flow with
  | normal => exact Truncating.pure _
  | returned value => exact Truncating.pure _

theorem construct_truncating (id : ClassId) (arguments : List Value) :
    Truncating (construct sub id arguments) := by
  refine (Truncating.allocate _).bind fun receiver => Truncating.heap.bind fun heap => ?_
  cases heap.initializer? id with
  | none => exact Truncating.pure _
  | some method =>
      exact (Truncating.allocate _).bind fun closure =>
        (callClosure_truncating hsub closure arguments).bind fun _ => Truncating.pure _

theorem invoke_truncating (callable : Heap.Callable) (arguments : List Value) :
    Truncating (invoke sub callable arguments) := by
  cases callable with
  | native native => cases native with
    | clock => exact Blind.readClock.truncating.bind fun _ => Truncating.pure _
  | closure closure => exact callClosure_truncating hsub closure arguments
  | class_ id => exact construct_truncating hsub id arguments

theorem evaluateCall_truncating (callee : Expr) (paren : Token) (arguments : List Expr) :
    Truncating (evaluateCall sub callee paren arguments) := by
  refine (hsub (.evaluate callee)).bind fun callee => (hsub (.evaluateAll arguments)).bind fun
    values => Truncating.heap.bind fun heap => ?_
  cases heap.callable? callee with
  | none => exact Truncating.fail _ _
  | some callable =>
      refine Truncating.heap.bind fun heap => Truncating.ite (Truncating.fail _ _) ?_
      refine Truncating.get_bind (fun machine => ?_) fun _ _ _ => rfl
      exact Truncating.ite (Truncating.fail _ _)
        (invoke_truncating hsub callable values).nested

theorem evaluate_truncating (e : Expr) : Truncating (evaluate sub e) := by
  cases e with
  | literal id value => exact Truncating.pure _
  | grouping id inner => exact hsub (.evaluate inner)
  | unary id operator operand =>
      exact (hsub (.evaluate operand)).bind fun _ => (unary_blind _ _).truncating
  | binary id left operator right =>
      exact (hsub (.evaluate left)).bind fun _ => (hsub (.evaluate right)).bind fun _ =>
        (binary_blind _ _ _).truncating
  | logical id left operator right => exact evaluateLogical_truncating hsub left operator right
  | var id name => exact (readVariable_blind id name).truncating
  | assign id name value =>
      exact (hsub (.evaluate value)).bind fun _ => (writeVariable_blind id name _).truncating.bind
        fun _ => Truncating.pure _
  | call id callee paren arguments => exact evaluateCall_truncating hsub callee paren arguments
  | get id object name => exact evaluateGet_truncating hsub object name
  | set id object name value => exact evaluateSet_truncating hsub object name value
  | super_ id keyword method => exact (readSuper_blind id keyword method).truncating
  | this_ id keyword => exact (readVariable_blind id keyword).truncating

theorem evaluateAll_truncating (es : List Expr) : Truncating (evaluateAll sub es) := by
  cases es with
  | nil => exact Truncating.pure _
  | cons e rest =>
      exact (hsub (.evaluate e)).bind fun _ => (hsub (.evaluateAll rest)).bind fun _ =>
        Truncating.pure _

/-! ## Statements -/

theorem evaluateOpt_truncating (e : Option Expr) : Truncating (evaluateOpt sub e) := by
  cases e with
  | none => exact Truncating.pure _
  | some e => exact hsub (.evaluate e)

theorem evaluateSuperclass_truncating (name : Token) (superclass : Option Expr) :
    Truncating (evaluateSuperclass sub name superclass) := by
  cases superclass with
  | none => exact Truncating.pure _
  | some e =>
      refine (hsub (.evaluate e)).bind fun value => ?_
      cases value with
      | class_ id => exact Truncating.pure _
      | _ => exact Truncating.fail _ _

omit hsub in
theorem methodEnvironment_blind (superclass : Option ClassId) (methods : List FunctionDecl) :
    Blind (methodEnvironment superclass methods) := by
  refine Blind.here.bind fun place => ?_
  cases superclass with
  | none => exact Blind.pure _
  | some id =>
      exact (Blind.allocate _).bind fun _ => (Blind.update _).bind fun _ => Blind.pure _

theorem executeClass_truncating (name : Token) (superclass : Option Expr)
    (methods : List FunctionDecl) : Truncating (executeClass sub name superclass methods) :=
  (define_blind _ _).truncating.bind fun _ =>
    (evaluateSuperclass_truncating hsub name superclass).bind fun parent =>
      (methodEnvironment_blind parent methods).truncating.bind fun _ =>
        (Truncating.allocate _).bind fun _ => Truncating.here.bind fun _ =>
          (assign_blind _ _ _).truncating

theorem executeWhile_truncating (condition : Expr) (body : Stmt) :
    Truncating (executeWhile sub condition body) := by
  refine (hsub (.evaluate condition)).bind fun value => Truncating.ite ?_ (Truncating.pure _)
  refine (hsub (.execute body)).bind fun flow => ?_
  cases flow with
  | normal => exact hsub (.execute (.while_ condition body))
  | returned value => exact Truncating.pure _

theorem execute_truncating (statement : Stmt) : Truncating (execute sub statement) := by
  cases statement with
  | expression value => exact (hsub (.evaluate value)).bind fun _ => Truncating.pure _
  | print value =>
      exact (hsub (.evaluate value)).bind fun _ => Truncating.heap.bind fun _ =>
        (Truncating.write _).bind fun _ => Truncating.pure _
  | var name initializer =>
      exact (evaluateOpt_truncating hsub initializer).bind fun _ =>
        (define_blind _ _).truncating.bind fun _ => Truncating.pure _
  | block body =>
      exact Truncating.here.bind fun _ => (Truncating.allocate _).bind fun place =>
        (hsub (.executeAll body)).within place
  | function declaration =>
      exact Truncating.here.bind fun _ => (Truncating.allocate _).bind fun _ =>
        (define_blind _ _).truncating.bind fun _ => Truncating.pure _
  | class_ name superclass methods =>
      exact (executeClass_truncating hsub name superclass methods).bind fun _ => Truncating.pure _
  | ifThen condition thenBranch =>
      exact (hsub (.evaluate condition)).bind fun _ =>
        Truncating.ite (hsub (.execute thenBranch)) (Truncating.pure _)
  | ifElse condition thenBranch elseBranch =>
      exact (hsub (.evaluate condition)).bind fun _ =>
        Truncating.ite (hsub (.execute thenBranch)) (hsub (.execute elseBranch))
  | while_ condition body => exact executeWhile_truncating hsub condition body
  | return_ keyword value =>
      exact (evaluateOpt_truncating hsub value).bind fun _ => Truncating.pure _

theorem executeAll_truncating (statements : List Stmt) :
    Truncating (executeAll sub statements) := by
  cases statements with
  | nil => exact Truncating.pure _
  | cons first rest =>
      refine (hsub (.execute first)).bind fun flow => ?_
      cases flow with
      | normal => exact hsub (.executeAll rest)
      | returned value => exact Truncating.pure _

/-! ## Runs -/

theorem step_truncating (task : Task) : Truncating (task.step sub) := by
  cases task with
  | evaluate e => exact evaluate_truncating hsub e
  | evaluateAll es => exact evaluateAll_truncating hsub es
  | execute statement => exact execute_truncating hsub statement
  | executeAll statements => exact executeAll_truncating hsub statements

end

theorem run_truncating (fuel : Nat) (task : Task) : Truncating (Task.run fuel task) := by
  induction fuel generalizing task with
  | zero => exact Truncating.throw _
  | succ fuel ih => exact step_truncating ih task

theorem interpret_truncating (fuel : Nat) (program : List Stmt) (distances : Scope.Distances) :
    Truncating (interpret fuel program distances) := by
  have hlearn : Blind (modify fun machine : Machine =>
      { machine with distances := machine.distances.insertMany distances.toList }) :=
    fun _ _ _ => rfl
  exact hlearn.truncating.bind fun _ => (run_truncating fuel (.executeAll program)).bind fun _ =>
    Truncating.flush

end Lox.Run
