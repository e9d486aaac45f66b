import Lox.Proofs.Grammar.Moved
import Lox.Proofs.Run.Control
import Lox.Proofs.Run.Origin
import Lox.Proofs.Run.Renumbering
import Lox.Proofs.Run.Return
import Lox.Proofs.Token.Seam

/-!
# A source in two pieces

Two sources without static errors make one that has none, if a line break is put between them. Its
program is a copy of that of the first piece and, below it, one of that of the second piece. Run on a
new machine it does what the pieces do, one after the other.
-/

namespace Lox.Run

open Scope (Distances)

/-! ## The whole source -/

/-- How much further down the second piece is in the whole. -/
def linesAbove (first : String) : Nat :=
  1 + lineBreaks first.toList

theorem faithful_down (lines : Nat) : Faithful (Token.down lines) :=
  ⟨fun _ => rfl, fun _ => rfl⟩

/-- Two programs are copies of two others, the tokens of the second one replaced, and their
expressions have the same distances in the whole. -/
structure Joined (f : Token → Token) (above below : List Stmt) (distances further : Distances)
    (above' below' : List Stmt) (whole : Distances) : Prop where
  copy : Stmt.eraseAll above' = Stmt.mapTokensAll (fun token => token) (Stmt.eraseAll above)
  copy' : Stmt.eraseAll below' = Stmt.mapTokensAll f (Stmt.eraseAll below)
  distances : ∀ id id', Beside (Stmt.nodesAll above) (Stmt.nodesAll above') id id' →
    whole[id']? = distances[id]?
  further : ∀ id id', Beside (Stmt.nodesAll below) (Stmt.nodesAll below') id id' →
    whole[id']? = further[id]?

section

variable {first second : String} {nextId middle last : NodeId} {above below : List Stmt}
  {distances further : Distances}

/-- Two pieces without static errors make a whole without any, whatever identities it is read
with. -/
theorem Accepted.joined (hfirst : Accepted first nextId above distances middle)
    (hsecond : Accepted second middle below further last) (start : NodeId) :
    ∃ above' below' whole last',
      Accepted (first ++ "\n" ++ second) start (above' ++ below') whole last' ∧
        Joined (.down (linesAbove first)) above below distances further above' below' whole := by
  have habove : (Grammar.parse (tokens first) nextId).errors = [] := by rw [hfirst.parsed]
  have hbelow : (Grammar.parse (tokens second) middle).errors = [] := by rw [hsecond.parsed]
  obtain ⟨herrors, htrees⟩ := Grammar.parse_append (faithful_down (linesAbove first)).kind
    (takeWhile_tokens_seam second hfirst.lexical) habove hbelow start
  have hunique := (Grammar.parse_fresh (tokens (first ++ "\n" ++ second)) start).nodup
  cases hparse : Grammar.parse (tokens (first ++ "\n" ++ second)) start with
  | mk program errors last' =>
      rw [hparse, hfirst.parsed, hsecond.parsed] at htrees
      rw [hparse] at herrors hunique
      obtain ⟨above', below', rfl, habove', hbelow'⟩ := Stmt.eraseAll_eq_append htrees
      rw [← Stmt.mapTokensAll_id (Stmt.eraseAll above)] at habove'
      obtain ⟨whole, hresolve, hdistances, hfurther⟩ := resolve_copies faithful_same
        (faithful_down _) hfirst.resolved hsecond.resolved hfirst.checked.fresh.nodup
        hsecond.checked.fresh.nodup hunique habove' hbelow'
      cases herrors
      exact ⟨above', below', whole, last', ⟨lexicalErrors_seam hfirst.lexical hsecond.lexical, hparse,
        hresolve⟩, habove', hbelow', hdistances, hfurther⟩

end

/-! ## Running the pieces -/

/-- The machine after a flush that was not refused. -/
def Machine.flushedOnce (machine : Machine) : Machine :=
  { machine with output := { machine.output with flushes := machine.output.flushes + 1 } }

theorem Informed.flushedOnce {known : List Occurrence} {nextId : NodeId} {machine : Machine}
    (h : Informed known nextId machine) : Informed known nextId machine.flushedOnce :=
  ⟨h.heap, h.environment, h.matched, h.used, h.unused, h.lawful⟩

theorem flush_eq {machine : Machine} (h : ∀ index, machine.sink.refuseFlush index = none) :
    flush machine = .ok () machine.flushedOnce := by
  simp only [flush, settle, Sink.flush, h]
  rfl

/-- The sink of a machine stays what it is. -/
theorem run_sink (fuel : Nat) (task : Task) (machine : Machine) :
    (Outcome.machine (Task.run fuel task machine)).sink = machine.sink :=
  congrArg Control.sink (run_control fuel task machine)

theorem run_distances (fuel : Nat) (task : Task) (machine : Machine) :
    (Outcome.machine (Task.run fuel task machine)).distances = machine.distances :=
  congrArg Control.distances (run_control fuel task machine)

namespace Joined

variable {f : Token → Token} {above below above' below' : List Stmt}
  {distances further whole : Distances} {first second : String} {nextId middle last : NodeId}

/-- The first program and its copy go together. -/
def firstPairing (_ : Joined f above below distances further above' below' whole) : Pairing :=
  .ofCopy above above' distances fun token => token

/-- The second program and its copy go together. -/
def secondPairing (_ : Joined f above below distances further above' below' whole) : Pairing :=
  .ofCopy below below' further f

/-- The first program does what its copy does. -/
theorem first_alike (h : Joined f above below distances further above' below' whole)
    (hfirst : Checked first nextId above distances middle) (clock : Nat → Float) (sink : Sink)
    (fuel : Nat) :
    ProgramsAlike ⟨(· = h.firstPairing), 0⟩ fuel above ((Machine.start clock sink).learn distances)
      (Task.run fuel (.executeAll above) ((Machine.start clock sink).learn distances))
      (Task.run fuel (.executeAll above') ((Machine.start clock sink).learn whole)) := by
  have hmachine : ((Machine.start clock sink).learn distances).Twin ⟨(· = h.firstPairing), 0⟩
      (fun _ => .same) [] ((Machine.start clock sink).learn whole) := by
    have hpairing : (· = h.firstPairing) h.firstPairing := rfl
    refine Machine.twin_start clock sink hpairing rfl rfl rfl ?_
    rintro _ rfl id id' distance ⟨hbeside, hdistance⟩
    exact ⟨hdistance, (h.distances id id' hbeside).trans hdistance⟩
  have hinformed : Informed [] nextId (.start clock sink) := informed_start clock sink
  exact programsAlike (hinformed.learn hfirst) (hinformed.begins hfirst).2 hmachine rfl
    (twin_ofCopy faithful_same h.copy) fuel

/-- The second program, after the first one, does what its copy does. -/
theorem second_alike (h : Joined f above below distances further above' below' whole)
    (hf : Faithful f) (hfirst : Checked first nextId above distances middle)
    (hsecond : Checked second middle below further last) {known : List Occurrence}
    {renamers : Renamers} {after after' : Machine} (hinformed : Informed known middle after)
    (hafter : after.Twin ⟨(· = h.firstPairing), 0⟩ renamers [] after')
    (hknown : ∀ id : NodeId, after'.distances[id]? = whole[id]?) (fuel : Nat) :
    ProgramsAlike ⟨fun pairing => pairing = h.firstPairing ∨ pairing = h.secondPairing, 1⟩ fuel below
      (after.flushedOnce.learn further)
      (Task.run fuel (.executeAll below) (after.flushedOnce.learn further))
      (Task.run fuel (.executeAll below') after') := by
  have hflushed := hinformed.flushedOnce
  have hahead : after.flushedOnce.Twin ⟨(· = h.firstPairing), 1⟩ renamers [] after' :=
    ⟨hafter.heap, hafter.scopes, hafter.environment, hafter.callDepth, hafter.clock,
      hafter.clockReads, hafter.sink, ⟨hafter.output.offered, hafter.output.written,
        congrArg (· + 1) hafter.output.flushes⟩, hafter.distances⟩
  have hmachine : (after.flushedOnce.learn further).Twin
      ⟨fun pairing => pairing = h.firstPairing ∨ pairing = h.secondPairing, 1⟩ renamers [] after' := by
    refine hahead.knowing (fun _ => .inl) ?_
    rintro pairing (rfl | rfl) id id' distance hmatched
    · have hid := (hfirst.fresh.bounds id hmatched.1.mem_left).2
      have hsame := hafter.distances _ rfl id id' distance hmatched
      exact ⟨(hsecond.learn_earlier after.flushedOnce hid).trans hsame.1, hsame.2⟩
    · obtain ⟨hbeside, hdistance⟩ := hmatched
      have hid := (hsecond.fresh.bounds id hbeside.mem_left).1
      exact ⟨(hflushed.learn_later _ hid).trans hdistance,
        (hknown id').trans ((h.further id id' hbeside).trans hdistance)⟩
  exact programsAlike (hflushed.learn hsecond) (hflushed.begins hsecond).2 hmachine (.inr rfl)
    (twin_ofCopy hf h.copy') fuel

end Joined

/-! ## Errors of the second piece -/

/-- The error is raised at the expression with this identity, while the program is executed from the
machine. -/
def RaisedAt (fuel : Nat) (program : List Stmt) (machine : Machine) (error : RuntimeError)
    (id : NodeId) : Prop :=
  ∃ last moment, Raised fuel (.executeAll program) machine error last moment ∧
    last.origin? = some id

/-- The second error is the first one, with another token if it is raised in `below` and with the same
one if it is raised in `above`. -/
structure Relocated (f : Token → Token) (fuel : Nat) (above below : List Stmt) (machine : Machine)
    (error error' : RuntimeError) : Prop where
  fault : error'.fault = error.fault
  raised : ∃ id, RaisedAt fuel below machine error id
  moved : ∀ id, RaisedAt fuel below machine error id → id ∈ Stmt.nodesAll below →
    error'.token = f error.token
  kept : ∀ id, RaisedAt fuel below machine error id → id ∉ Stmt.nodesAll below →
    id ∈ Stmt.nodesAll above ∧ error'.token = error.token

namespace Joined

variable {f : Token → Token} {above below above' below' : List Stmt}
  {distances further whole : Distances} {first second : String} {nextId middle last : NodeId}

theorem relocated (h : Joined f above below distances further above' below' whole)
    (hfirst : Checked first nextId above distances middle)
    (hsecond : Checked second middle below further last) {known : List Occurrence}
    {machine : Machine} (hinformed : Informed known middle machine) {fuel : Nat}
    {error error' : RuntimeError}
    (halike : RaisedAlike ⟨fun pairing => pairing = h.firstPairing ∨ pairing = h.secondPairing, 1⟩
      fuel (.executeAll below) (machine.learn further) error error') :
    Relocated f fuel above below (machine.learn further) error error' := by
  obtain ⟨hfault, pairing, scopes, task, task', moment, hpairing, htwin, hraised, htoken⟩ := halike
  obtain ⟨hstands, hbelongs⟩ := hinformed.begins hsecond
  obtain ⟨id, horigin⟩ := hraised.origin hstands hbelongs
  obtain ⟨id', hnode⟩ := htwin.origin horigin
  have hunique : ∀ other, RaisedAt fuel below (machine.learn further) error other → other = id := by
    rintro other ⟨task, moment, hraised', horigin'⟩
    cases hraised.unique hraised'
    exact Option.some.inj (horigin'.symm.trans horigin)
  refine ⟨hfault, ⟨id, task, moment, hraised, horigin⟩, fun other hother hmem => ?_,
    fun other hother hmem => ?_⟩
  · obtain rfl := hunique other hother
    obtain rfl | rfl := hpairing
    · have hlow := (hfirst.fresh.bounds _ hnode.mem_left).2
      have hhigh := (hsecond.fresh.bounds _ hmem).1
      exact absurd hlow (Nat.not_lt_of_le hhigh)
    · exact htoken
  · obtain rfl := hunique other hother
    obtain rfl | rfl := hpairing
    · exact ⟨hnode.mem_left, htoken⟩
    · exact absurd hnode.mem_left hmem

end Joined

/-! ## One piece after the other -/

/-- What is done after a normal end; any other end is the last one. -/
def goOn (next : Machine → Outcome Flow) : Outcome Flow → Outcome Flow
  | .ok .normal after => next after
  | .ok (.returned value) after => .ok (.returned value) after
  | .error interrupt after => .error interrupt after

theorem run_executeAll_cons (fuel : Nat) (s : Stmt) (rest : List Stmt) (machine : Machine) :
    Task.run (fuel + 1) (.executeAll (s :: rest)) machine =
      goOn (Task.run fuel (.executeAll rest)) (Task.run fuel (.execute s) machine) := by
  change (Bind.bind (Task.run fuel (.execute s)) _ : Action Flow) machine = _
  simp only [Bind.bind, EStateM.bind]
  cases Task.run fuel (.execute s) machine with
  | ok flow after => cases flow <;> rfl
  | error interrupt after => rfl

/-- Statements are executed after others if these end normally, with the fuel that is left. -/
theorem run_executeAll_append (xs ys : List Stmt) (fuel : Nat) (machine : Machine) :
    Task.run fuel (.executeAll (xs ++ ys)) machine =
      goOn (Task.run (fuel - xs.length) (.executeAll ys))
        (Task.run fuel (.executeAll xs) machine) := by
  induction xs generalizing fuel machine with
  | nil =>
      cases fuel with
      | zero => rfl
      | succ fuel => rfl
  | cons s rest ih =>
      cases fuel with
      | zero => rfl
      | succ fuel =>
          rw [List.cons_append, run_executeAll_cons, run_executeAll_cons, List.length_cons,
            Nat.add_sub_add_right]
          cases Task.run fuel (.execute s) machine with
          | ok flow after =>
              cases flow with
              | normal => exact ih fuel after
              | returned value => rfl
          | error interrupt after => rfl

/-- How the whole ends, beside the end of the pieces: for the same reason, or with a related error,
and with the same bytes written. -/
inductive WholeEnds (related : RuntimeError → RuntimeError → Prop) :
    Outcome Unit → Outcome Unit → Prop where
  | finished {after after' : Machine} : after'.output.written = after.output.written →
      WholeEnds related (.ok () after) (.ok () after')
  | fault {error error' : RuntimeError} {after after' : Machine} : related error error' →
      after'.output.written = after.output.written →
        WholeEnds related (.error (.fault error) after) (.error (.fault error') after')
  | refused (message : String) {after after' : Machine} :
      after'.output.written = after.output.written →
        WholeEnds related (.error (.refused message) after) (.error (.refused message) after')

/-- The outcome is not for want of fuel. -/
def Fueled {α : Type} (outcome : Outcome α) : Prop :=
  ∀ last, outcome ≠ .error .outOfFuel last

/-- Fuel is lacking only before the output is flushed. -/
theorem fueled_flushed {outcome : Outcome Flow} : Fueled (flushed outcome) ↔ Fueled outcome := by
  cases outcome with
  | ok flow after =>
      simp only [flushed, flush, settle]
      cases after.sink.flush after.output with
      | mk refused output => cases refused <;> simp [Fueled]
  | error interrupt after => simp [Fueled, flushed]

theorem ProgramsAlike.fueled {comparison : Comparison} {fuel : Nat} {program : List Stmt}
    {machine : Machine} {outcome outcome' : Outcome Flow}
    (h : ProgramsAlike comparison fuel program machine outcome outcome') :
    Fueled outcome' ↔ Fueled outcome := by
  cases h <;> simp [Fueled]

/-- A run that does not lack fuel ends alike with more. -/
theorem run_more {fuel more : Nat} {task : Task} {machine : Machine} {outcome : Outcome task.Result}
    (hend : Task.run fuel task machine = outcome) (hfueled : Fueled outcome) (hle : fuel ≤ more) :
    Task.run more task machine = outcome := by
  subst hend
  exact run_of_le hle hfueled

/-- Further statements are executed with the fuel that is left, if the first ones end normally. -/
theorem interpret_append (fuel : Nat) (xs ys : List Stmt) (distances : Distances)
    (machine : Machine) :
    interpret fuel (xs ++ ys) distances machine =
      flushed (goOn (Task.run (fuel - xs.length) (.executeAll ys))
        (Task.run fuel (.executeAll xs) (machine.learn distances))) := by
  rw [interpret_eq_flushed, run_executeAll_append]

namespace Joined

variable {f : Token → Token} {above below above' below' : List Stmt}
  {distances further whole : Distances} {first second : String} {middle last : NodeId}

section

variable (h : Joined f above below distances further above' below' whole)
  (hfirst : Checked first 0 above distances middle) (clock : Nat → Float) {sink : Sink}
  (hflush : ∀ index, sink.refuseFlush index = none) {fuel more : Nat}

include h hfirst hflush

/-- If the first piece is interrupted, then so is the whole, for the same reason. -/
theorem first_interrupted {interrupt : Interrupt} {after : Machine}
    (hend : interpret fuel above distances (.start clock sink) = .error interrupt after)
    (hfuel : interrupt ≠ .outOfFuel) (hle : fuel ≤ more) :
    WholeEnds Eq (.error interrupt after)
      (interpret more (above' ++ below') whole (.start clock sink)) := by
  have halike := h.first_alike hfirst clock sink fuel
  have hsink := run_sink fuel (.executeAll above) ((Machine.start clock sink).learn distances)
  rw [interpret_eq_flushed] at hend
  rw [interpret_append]
  generalize Task.run fuel (.executeAll above) _ = outcome at hend halike hsink
  generalize hcopy : Task.run fuel (.executeAll above') _ = outcome' at halike
  cases halike with
  | @finished flow renamers after after' htwin =>
      have hunrefused : ∀ index, after.sink.refuseFlush index = none := by
        rwa [show after.sink = sink from hsink]
      rw [flushed, flush_eq hunrefused] at hend
      cases hend
  | @fault error error' renamers after after' hraised htwin =>
      cases hend
      obtain ⟨hfault, pairing, -, -, -, -, rfl, -, -, htoken⟩ := hraised
      rw [run_more hcopy (by simp [Fueled]) hle]
      refine .fault ?_ htwin.output.written
      cases error
      cases error'
      cases hfault
      cases htoken
      rfl
  | refused message htwin =>
      cases hend
      rw [run_more hcopy (by simp [Fueled]) hle]
      exact .refused message htwin.output.written
  | outOfFuel htwin =>
      cases hend
      exact absurd rfl hfuel

/-- If the first piece is not interrupted, then its copy ends normally as well. -/
theorem first_finished {between : Machine}
    (hend : interpret fuel above distances (.start clock sink) = .ok () between) :
    ∃ after after' renamers, between = after.flushedOnce ∧
      Task.run fuel (.executeAll above') ((Machine.start clock sink).learn whole) =
        .ok .normal after' ∧
      after.Twin ⟨(· = h.firstPairing), 0⟩ renamers [] after' ∧
      Informed (programSites above) middle after ∧ after.sink = sink ∧
      ∀ id : NodeId, after'.distances[id]? = whole[id]? := by
  rw [interpret_eq_flushed] at hend
  have halike := h.first_alike hfirst clock sink fuel
  have hinformed := (informed_start clock sink).learn hfirst
  have hkept := run_kept fuel ((informed_start clock sink).begins hfirst).1
    ((informed_start clock sink).begins hfirst).2
  have hsink := run_sink fuel (.executeAll above) ((Machine.start clock sink).learn distances)
  have hknown := run_distances fuel (.executeAll above') ((Machine.start clock sink).learn whole)
  have hnormal (flow : Flow) (after : Machine) :
      Task.run fuel (.executeAll above) ((Machine.start clock sink).learn distances) = .ok flow after →
        flow = .normal :=
    executeAll_normal (returnsAll_of_resolve hfirst.resolved)
  generalize Task.run fuel (.executeAll above) _ = outcome at *
  generalize Task.run fuel (.executeAll above') _ = outcome' at *
  cases halike with
  | @finished flow renamers after after' htwin =>
      obtain rfl := hnormal flow after rfl
      have hsame : after.sink = sink := hsink
      have hunrefused : ∀ index, after.sink.refuseFlush index = none := by rwa [hsame]
      refine ⟨after, after', renamers, ?_, rfl, htwin, hinformed.kept hkept, hsame, fun id => ?_⟩
      · rw [flushed, flush_eq hunrefused] at hend
        cases hend
        rfl
      · rw [show after'.distances = _ from hknown, getElem?_learn]
        exact Option.or_none ..
  | fault hraised htwin => cases hend
  | refused message htwin => cases hend
  | outOfFuel htwin => cases hend

/-- If neither piece lacks fuel, then the whole ends as the second piece does. -/
theorem second_ends (hf : Faithful f) (hsecond : Checked second middle below further last)
    {between : Machine}
    (hend : interpret fuel above distances (.start clock sink) = .ok () between)
    (hfueled : Fueled (interpret fuel below further between))
    (hle : fuel + above'.length ≤ more) :
    WholeEnds (Relocated f fuel above below (between.learn further))
      (interpret fuel below further between)
      (interpret more (above' ++ below') whole (.start clock sink)) := by
  obtain ⟨after, after', renamers, rfl, hrun, htwin, hinformed, hsink, hknown⟩ :=
    first_finished h hfirst clock hflush hend
  have halike := h.second_alike hf hfirst hsecond hinformed htwin hknown fuel
  rw [interpret_eq_flushed, fueled_flushed] at hfueled
  have hfirst_more := run_more hrun (by simp [Fueled]) (Nat.le_trans (Nat.le_add_right ..) hle)
  have hsecond_more := run_more rfl (halike.fueled.mpr hfueled) (Nat.le_sub_of_add_le hle)
  have hwhole : interpret more (above' ++ below') whole (.start clock sink) =
      flushed (Task.run fuel (.executeAll below') after') := by
    rw [interpret_append, hfirst_more, ← hsecond_more]
    rfl
  rw [hwhole, interpret_eq_flushed]
  have hsame := run_sink fuel (.executeAll below) (after.flushedOnce.learn further)
  have hsame' := run_sink fuel (.executeAll below') after'
  generalize hleft : Task.run fuel (.executeAll below) _ = outcome at halike hsame hfueled
  generalize Task.run fuel (.executeAll below') _ = outcome' at halike hsame'
  cases halike with
  | @finished flow renamers last last' hlast =>
      have hunrefused : ∀ index, last.sink.refuseFlush index = none := by
        rwa [show last.sink = after.sink from hsame, hsink]
      have hunrefused' : ∀ index, last'.sink.refuseFlush index = none := by
        rwa [hlast.sink]
      rw [flushed, flushed, flush_eq hunrefused, flush_eq hunrefused']
      exact .finished hlast.output.written
  | fault hraised hlast =>
      exact .fault (h.relocated hfirst hsecond hinformed.flushedOnce hraised) hlast.output.written
  | refused message hlast => exact .refused message hlast.output.written
  | outOfFuel hlast => exact absurd rfl (hfueled _)

/-- If the whole does not lack fuel, then neither do the pieces. -/
theorem pieces_fueled (hf : Faithful f) (hsecond : Checked second middle below further last)
    (hfueled : Fueled (interpret fuel (above' ++ below') whole (.start clock sink))) :
    Fueled (interpret fuel above distances (.start clock sink)) ∧
      ∀ between, interpret fuel above distances (.start clock sink) = .ok () between →
        Fueled (interpret fuel below further between) := by
  rw [interpret_append, fueled_flushed] at hfueled
  have halike := h.first_alike hfirst clock sink fuel
  refine ⟨?_, fun between hend => ?_⟩
  · rw [interpret_eq_flushed, fueled_flushed, ← halike.fueled]
    intro last hlast
    exact hfueled last (by rw [hlast]; rfl)
  · obtain ⟨after, after', renamers, rfl, hrun, htwin, hinformed, -, hknown⟩ :=
      first_finished h hfirst clock hflush hend
    rw [hrun] at hfueled
    have hcopy : Fueled (Task.run (fuel - above'.length) (.executeAll below') after') := hfueled
    have hmore := run_more rfl hcopy (Nat.sub_le fuel above'.length)
    rw [interpret_eq_flushed, fueled_flushed,
      ← (h.second_alike hf hfirst hsecond hinformed htwin hknown fuel).fueled, hmore]
    exact hcopy

end

end Joined

end Lox.Run
