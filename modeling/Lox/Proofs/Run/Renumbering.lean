import Lox.Proofs.Grammar.Renumbering
import Lox.Proofs.Run.Twins
import Lox.Proofs.Scope.Renumbering

/-!
# Sources read with other identities

A source that is read twice, with other identities the second time, has the same errors and breaks
the same rules, and its expressions have the same distances. Run on machines that are twins it does
the same, and leaves machines that are twins.
-/

namespace Lox.Run

open Scope (Distances)

/-! ## Two readings -/

/-- Two readings of a source, which differ in identities only. -/
structure Renumbered (program program' : Grammar.Program) : Prop where
  errors : program'.errors = program.errors
  copy : Stmt.eraseAll program'.statements = Stmt.eraseAll program.statements
  broken : (Scope.resolve program'.statements).2 = (Scope.resolve program.statements).2
  distances : ∀ id id', Beside (Stmt.nodesAll program.statements)
    (Stmt.nodesAll program'.statements) id id' →
      (Scope.resolve program'.statements).1[id']? = (Scope.resolve program.statements).1[id]?

/-- Readings with the same errors and trees, but for identities, differ in identities only. -/
theorem renumbered_of_copy {tokens tokens' : List Token} {nextId nextId' : NodeId}
    (herrors : (Grammar.parse tokens' nextId').errors = (Grammar.parse tokens nextId).errors)
    (hcopy : Stmt.eraseAll (Grammar.parse tokens' nextId').statements =
      Stmt.eraseAll (Grammar.parse tokens nextId).statements) :
    Renumbered (Grammar.parse tokens nextId) (Grammar.parse tokens' nextId') := by
  obtain ⟨hbroken, hdistances⟩ := resolve_renumbered hcopy
    (Grammar.parse_fresh tokens nextId).nodup (Grammar.parse_fresh tokens' nextId').nodup
  exact ⟨herrors, hcopy, hbroken, hdistances⟩

theorem renumbered (tokens : List Token) (nextId nextId' : NodeId) :
    Renumbered (Grammar.parse tokens nextId) (Grammar.parse tokens nextId') := by
  obtain ⟨herrors, hcopy⟩ := Grammar.parse_renumbered tokens nextId nextId'
  exact renumbered_of_copy herrors hcopy

/-! ## Machines that know more -/

section

variable {comparison : Comparison} {renamers : Renamers} {scopes : List Renamer}
  {machine machine' : Machine}

/-- Twin machines may know other distances, and further pieces of programs may be twins. -/
theorem Machine.Twin.knowing (h : machine.Twin comparison renamers scopes machine')
    {more : Pairing → Prop} (hmore : ∀ pairing, comparison.pairing pairing → more pairing)
    {distances distances' : Distances}
    (hdistances : ∀ pairing, more pairing → ∀ id id' distance, pairing.matched id id' distance →
      distances[id]? = distance ∧ distances'[id']? = distance) :
    Machine.Twin ⟨more, comparison.ahead⟩ renamers scopes { machine with distances := distances }
      { machine' with distances := distances' } :=
  ⟨h.heap.mono hmore, h.scopes, h.environment, h.callDepth, h.clock, h.clockReads, h.sink, h.output,
    hdistances⟩

/-- What was known is known still, after a program with identities that come later. -/
theorem learn_earlier {nextId last : NodeId} {program : List Stmt}
    (h : Grammar.Fresh (Stmt.nodesAll program) nextId last) (machine : Machine) {id : NodeId}
    (hid : id < nextId) :
    (machine.learn (Scope.resolve program).1).distances[id]? = machine.distances[id]? := by
  have hlater := (h.subperm (useNodes_programSites_subperm program)).bounds
  have hunknown : (Scope.resolve program).1[id]? = none :=
    Scope.untouched_of_resolve rfl fun hmem => Nat.not_lt_of_le (hlater id hmem).1 hid
  rw [getElem?_learn, hunknown, Option.none_or]

theorem Checked.learn_earlier {source : String} {nextId last : NodeId} {program : List Stmt}
    {distances : Distances} (h : Checked source nextId program distances last) (machine : Machine)
    {id : NodeId} (hid : id < nextId) :
    (machine.learn distances).distances[id]? = machine.distances[id]? := by
  have hlearned := Run.learn_earlier h.fresh machine hid
  rwa [h.resolved] at hlearned

/-- A new program gets its distances. -/
theorem Informed.learn_later {known : List Occurrence} {nextId : NodeId}
    (h : Informed known nextId machine) (distances : Distances) {id : NodeId} (hid : nextId ≤ id) :
    (machine.learn distances).distances[id]? = distances[id]? := by
  rw [getElem?_learn, h.unused id hid, Option.or_none]

end

/-! ## Runs that end alike -/

/-- Runs that end in the same way, with machines that are related. -/
inductive SameEnd (related : Machine → Machine → Prop) : Outcome Unit → Outcome Unit → Prop where
  | finished {after after' : Machine} : related after after' →
      SameEnd related (.ok () after) (.ok () after')
  | interrupted (interrupt : Interrupt) {after after' : Machine} : related after after' →
      SameEnd related (.error interrupt after) (.error interrupt after')

theorem SameEnd.imp {related related' : Machine → Machine → Prop} {outcome outcome' : Outcome Unit}
    (h : SameEnd related outcome outcome')
    (himp : related outcome.machine outcome'.machine → related' outcome.machine outcome'.machine) :
    SameEnd related' outcome outcome' := by
  cases h with
  | finished hrelated => exact .finished (himp hrelated)
  | interrupted interrupt hrelated => exact .interrupted interrupt (himp hrelated)

section

variable {comparison : Comparison} {renamers : Renamers} {machine machine' : Machine}

theorem Machine.Twin.withOutput (h : machine.Twin comparison renamers [] machine')
    (hahead : comparison.ahead = 0) (output : Output) :
    Machine.Twin comparison renamers [] { machine with output := output }
      { machine' with output := output } :=
  ⟨h.heap, h.scopes, h.environment, h.callDepth, h.clock, h.clockReads, h.sink,
    ⟨rfl, rfl, by rw [hahead]; rfl⟩, h.distances⟩

/-- Twin machines that were flushed equally often flush alike. -/
theorem Machine.Twin.flush (h : machine.Twin comparison renamers [] machine')
    (hahead : comparison.ahead = 0) :
    SameEnd (fun after after' => ∃ later, after.Twin comparison later [] after') (Run.flush machine)
      (Run.flush machine') := by
  have houtput := h.output
  rw [hahead] at houtput
  have hoffer : machine'.sink.flush machine'.output = machine.sink.flush machine.output := by
    rw [h.sink, houtput.eq]
  simp only [Run.flush, settle, hoffer]
  cases machine.sink.flush machine.output with
  | mk refused output =>
      cases refused with
      | none => exact .finished ⟨renamers, h.withOutput hahead output⟩
      | some message => exact .interrupted _ ⟨renamers, h.withOutput hahead output⟩

/-- Twin programs end in the same way on twin machines, if only identities differ. -/
theorem Machine.Twin.sameEnd (h : machine.Twin comparison renamers [] machine')
    (hahead : comparison.ahead = 0)
    (htoken : ∀ pairing, comparison.pairing pairing → ∀ token token', pairing.token token token' →
      token' = token) {pairing : Pairing} (hpairing : comparison.pairing pairing)
    {program program' : List Stmt} (htwin : Stmt.TwinAll pairing [] program program') (fuel : Nat) :
    SameEnd (fun after after' => ∃ later, after.Twin comparison later [] after')
      (flushed (Task.run fuel (.executeAll program) machine))
      (flushed (Task.run fuel (.executeAll program') machine')) := by
  have hrun := runsAlike comparison fuel pairing [] renamers (.executeAll program)
    (.executeAll program') machine machine' hpairing (.executeAll htwin) h
  cases hend : Task.run fuel (.executeAll program) machine with
  | ok flow after =>
      cases hend' : Task.run fuel (.executeAll program') machine' with
      | ok flow' after' =>
          rw [hend, hend'] at hrun
          obtain ⟨-, later, hfollows⟩ := hrun
          exact hfollows.twin.flush hahead
      | error interrupt' after' =>
          rw [hend, hend'] at hrun
          exact hrun.elim
  | error interrupt after =>
      cases hend' : Task.run fuel (.executeAll program') machine' with
      | ok flow' after' =>
          rw [hend, hend'] at hrun
          exact hrun.elim
      | error interrupt' after' =>
          rw [hend, hend'] at hrun
          obtain ⟨hinterrupt, later, hfollows⟩ := hrun
          obtain rfl : interrupt' = interrupt := by
            cases hinterrupt with
            | fault _ hpairing _ hagree =>
                cases hagree with
                | same fault hblamed => rw [htoken _ hpairing _ _ hblamed]
                | lost _ _ _ _ hblamed => rw [htoken _ hpairing _ _ hblamed]
            | refused message => rfl
            | outOfFuel => rfl
          exact .interrupted _ ⟨later, hfollows.twin⟩

end

/-! ## Machines abreast of each other -/

/-- Programs that were read before the next identities go together by the pairing, token by token. -/
structure Earlier (nextId nextId' : NodeId) (pairing : Pairing) : Prop where
  node : ∀ id id' distance, pairing.matched id id' distance → id < nextId ∧ id' < nextId'
  token : ∀ token token', pairing.token token token' → token' = token

/-- Twin machines, whose programs were read before the next identities. -/
def Machine.TwinBefore (nextId nextId' : NodeId) (machine machine' : Machine) : Prop :=
  ∃ (pairings : Pairing → Prop) (renamers : Renamers),
    (∀ pairing, pairings pairing → Earlier nextId nextId' pairing) ∧
      machine.Twin ⟨pairings, 0⟩ renamers [] machine'

/-- Machines that have run the same sources, read with other identities each. -/
structure Abreast (nextId nextId' : NodeId) (machine machine' : Machine) : Prop where
  informed : ∃ known, Informed known nextId machine
  informed' : ∃ known, Informed known nextId' machine'
  twin : ∃ (pairings : Pairing → Prop) (renamers : Renamers),
    (∀ pairing, pairings pairing → Earlier nextId nextId' pairing) ∧
      machine.Twin ⟨pairings, 0⟩ renamers [] machine'

section

variable {nextId nextId' further further' : NodeId} {machine machine' : Machine}

theorem Earlier.skip {pairing : Pairing} (h : Earlier nextId nextId' pairing)
    (hle : nextId ≤ further) (hle' : nextId' ≤ further') : Earlier further further' pairing :=
  ⟨fun id id' distance hmatched => (h.node id id' distance hmatched).imp
    (fun hid => Nat.lt_of_lt_of_le hid hle) fun hid => Nat.lt_of_lt_of_le hid hle', h.token⟩

theorem Informed.skip {known : List Occurrence} (h : Informed known nextId machine)
    (hle : nextId ≤ further) : Informed known further machine :=
  ⟨h.heap, h.environment, h.matched, fun id hid => Nat.lt_of_lt_of_le (h.used id hid) hle,
    fun id hid => h.unused id (Nat.le_trans hle hid), h.lawful⟩

theorem Machine.TwinBefore.output (h : machine.TwinBefore nextId nextId' machine') :
    machine'.output = machine.output := by
  obtain ⟨pairings, renamers, -, htwin⟩ := h
  exact htwin.output.eq

namespace Abreast

/-- Identities may be left out. -/
theorem skip (h : Abreast nextId nextId' machine machine') (hle : nextId ≤ further)
    (hle' : nextId' ≤ further') : Abreast further further' machine machine' := by
  obtain ⟨⟨known, hinformed⟩, ⟨known', hinformed'⟩, pairings, renamers, hearlier, htwin⟩ := h
  exact ⟨⟨known, hinformed.skip hle⟩, ⟨known', hinformed'.skip hle'⟩, pairings, renamers,
    fun pairing hpairing => (hearlier pairing hpairing).skip hle hle', htwin⟩

theorem start (clock : Nat → Float) (sink : Sink) (nextId nextId' : NodeId) :
    Abreast nextId nextId' (.start clock sink) (.start clock sink) := by
  let pairing : Pairing := .ofCopy [] [] ∅ fun token => token
  refine ⟨⟨[], informed_start clock sink⟩, ⟨[], informed_start clock sink⟩, (· = pairing),
    fun _ => .same, ?_, ?_⟩
  · rintro _ rfl
    refine ⟨?_, fun token token' htoken => htoken⟩
    rintro id id' distance ⟨hbeside, -⟩
    cases hbeside.mem_left
  · have hpairing : (· = pairing) pairing := rfl
    refine ⟨Heap.twin_fresh hpairing rfl rfl, rfl, rfl, rfl, rfl, rfl, rfl,
      ⟨rfl, rfl, rfl⟩, ?_⟩
    rintro _ rfl id id' distance ⟨hbeside, -⟩
    cases hbeside.mem_left

theorem output (h : Abreast nextId nextId' machine machine') :
    machine'.output = machine.output :=
  Machine.TwinBefore.output h.twin

/-- The output may be replaced on both sides. -/
theorem withOutput (h : Abreast nextId nextId' machine machine') (output : Output) :
    Abreast nextId nextId' { machine with output := output } { machine' with output := output } := by
  obtain ⟨⟨known, hinformed⟩, ⟨known', hinformed'⟩, pairings, renamers, hearlier, htwin⟩ := h
  exact ⟨⟨known, hinformed.heap, hinformed.environment, hinformed.matched, hinformed.used,
      hinformed.unused, hinformed.lawful⟩,
    ⟨known', hinformed'.heap, hinformed'.environment, hinformed'.matched, hinformed'.used,
      hinformed'.unused, hinformed'.lawful⟩, pairings, renamers, hearlier, htwin.withOutput rfl output⟩

/-- Machines abreast of each other do the same with two readings of a program. -/
theorem sameEnd (h : Abreast nextId nextId' machine machine') {program program' : Grammar.Program}
    (hsame : Renumbered program program')
    (hfresh : Grammar.Fresh (Stmt.nodesAll program.statements) nextId program.nextId)
    (hfresh' : Grammar.Fresh (Stmt.nodesAll program'.statements) nextId' program'.nextId)
    (fuel : Nat) :
    SameEnd (Machine.TwinBefore program.nextId program'.nextId)
      (Run.interpret fuel program.statements (Scope.resolve program.statements).1 machine)
      (Run.interpret fuel program'.statements (Scope.resolve program'.statements).1 machine') := by
  obtain ⟨⟨known, hinformed⟩, ⟨known', hinformed'⟩, pairings, renamers, hearlier, htwin⟩ := h
  let pairing : Pairing := .ofCopy program.statements program'.statements
    (Scope.resolve program.statements).1 fun token => token
  let more : Pairing → Prop := fun other => pairings other ∨ other = pairing
  have hmore : ∀ other, more other → Earlier program.nextId program'.nextId other := by
    rintro other (hother | rfl)
    · exact (hearlier other hother).skip hfresh.le hfresh'.le
    · refine ⟨?_, fun token token' htoken => htoken⟩
      rintro id id' distance ⟨hbeside, -⟩
      exact ⟨(hfresh.bounds id hbeside.mem_left).2, (hfresh'.bounds id' hbeside.mem_right).2⟩
  have hmachine : (machine.learn (Scope.resolve program.statements).1).Twin ⟨more, 0⟩ renamers []
      (machine'.learn (Scope.resolve program'.statements).1) := by
    refine htwin.knowing (fun _ => .inl) ?_
    rintro other (hother | rfl) id id' distance hmatched
    · obtain ⟨hid, hid'⟩ := (hearlier other hother).node id id' distance hmatched
      have hknown := htwin.distances other hother id id' distance hmatched
      rwa [← learn_earlier hfresh machine hid, ← learn_earlier hfresh' machine' hid'] at hknown
    · obtain ⟨hbeside, hdistance⟩ := hmatched
      have hid := (hfresh.bounds id hbeside.mem_left).1
      have hid' := (hfresh'.bounds id' hbeside.mem_right).1
      exact ⟨(hinformed.learn_later _ hid).trans hdistance, (hinformed'.learn_later _ hid').trans
        ((hsame.distances id id' hbeside).trans hdistance)⟩
  have hcopy : Stmt.TwinAll pairing [] program.statements program'.statements :=
    twin_ofCopy faithful_same (hsame.copy.trans (Stmt.mapTokensAll_id _).symm)
  have hend := hmachine.sameEnd rfl (fun other hother => (hmore other hother).token) (.inr rfl) hcopy
    fuel
  rw [← interpret_eq_flushed, ← interpret_eq_flushed] at hend
  exact hend.imp fun ⟨later, hafter⟩ => ⟨more, later, hmore, hafter⟩

/-- Machines abreast of each other do the same with a further source, and are abreast afterwards. -/
theorem interpret (h : Abreast nextId nextId' machine machine') (source : String)
    (hlawful : (Scope.resolve (Grammar.parse (tokens source) nextId).statements).2 = [])
    (fuel : Nat) :
    let program := Grammar.parse (tokens source) nextId
    let program' := Grammar.parse (tokens source) nextId'
    SameEnd (Abreast program.nextId program'.nextId)
      (Run.interpret fuel program.statements (Scope.resolve program.statements).1 machine)
      (Run.interpret fuel program'.statements (Scope.resolve program'.statements).1 machine') := by
  intro program program'
  have hsame : Renumbered program program' := renumbered (tokens source) nextId nextId'
  have hchecked : Checked source nextId program.statements
      (Scope.resolve program.statements).1 program.nextId :=
    ⟨rfl, rfl, Prod.ext rfl hlawful⟩
  have hchecked' : Checked source nextId' program'.statements
      (Scope.resolve program'.statements).1 program'.nextId :=
    ⟨rfl, rfl, Prod.ext rfl (hsame.broken.trans hlawful)⟩
  obtain ⟨known, hinformed⟩ := h.informed
  obtain ⟨known', hinformed'⟩ := h.informed'
  refine (h.sameEnd hsame hchecked.fresh hchecked'.fresh fuel).imp fun htwin => ?_
  exact ⟨⟨_, hinformed.interpret hchecked fuel⟩, ⟨_, hinformed'.interpret hchecked' fuel⟩, htwin⟩

end Abreast

end

end Lox.Run
