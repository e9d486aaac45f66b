import Lox.Proofs.Run.Pieces
import Lox.Proofs.Session.Stages

/-!
# Running in pieces

Two sources without static errors that are put below each other do on a new machine what they do one
after the other. A run-time error is reported as it is, but for its line, which is counted from the
first line of the whole.
-/

namespace Lox

open Run (Sink Accepted Fueled Relocated WholeEnds linesAbove)

/-! ## Sources without static errors -/

/-- A source without static errors is accepted, whatever identities it is read with. -/
theorem accepted_of_not_hasStaticError {source : String} (h : ¬HasStaticError source)
    (nextId : NodeId) :
    let program := Grammar.parse (tokens source) nextId
    Accepted source nextId program.statements (Scope.resolve program.statements).1
      program.nextId := by
  intro program
  simp only [HasStaticError, not_or, Classical.not_not] at h
  obtain ⟨hlexical, herrors, hrules⟩ := h
  have hsame : Run.Renumbered (Grammar.parse (tokens source) 0) program :=
    Run.renumbered (tokens source) 0 nextId
  refine ⟨hlexical, ?_, Prod.ext rfl (hsame.broken.trans hrules)⟩
  change program = ⟨program.statements, [], program.nextId⟩
  rw [← hsame.errors.trans herrors]

theorem Run.Accepted.not_hasStaticError {source : String} {program : List Stmt}
    {distances : Scope.Distances} {last : NodeId}
    (h : Accepted source 0 program distances last) : ¬HasStaticError source := by
  simp only [HasStaticError, h.parsed, h.resolved, h.lexical]
  simp

theorem Run.Outcome.ended_iff {outcome : Outcome Unit} : outcome.ended ↔ Fueled outcome := by
  cases outcome with
  | ok a after => simp [Outcome.ended, Fueled]
  | error interrupt after => cases interrupt <;> simp [Outcome.ended, Fueled]

/-- A run that does not lack fuel ends alike with more. -/
theorem Run.interpret_more {fuel more : Nat} {program : List Stmt} {distances : Scope.Distances}
    {machine : Machine} (h : Fueled (interpret fuel program distances machine)) (hle : fuel ≤ more) :
    interpret more program distances machine = interpret fuel program distances machine := by
  rw [interpret_eq_flushed, fueled_flushed] at h
  rw [interpret_eq_flushed, interpret_eq_flushed, run_of_le hle h]

namespace Session

/-- A source without static errors is run, if there were none before. -/
theorem pass_accepted {session after : Session} {fuel : Nat} {source : String}
    {program : List Stmt} {distances : Scope.Distances} {last : NodeId}
    (h : Accepted source session.nextId program distances last)
    (hclean : session.report.hadError = false) :
    session.pass fuel source = some after ↔
      let outcome : Run.Outcome Unit := Run.interpret fuel program distances session.machine
      Fueled outcome ∧ after = ⟨outcome.machine, last, session.report.extend outcome.diagnostics⟩ := by
  have hread : session.reading source = ⟨program, [], last⟩ := h.parsed
  have hreading : readingErrors source ⟨program, [], last⟩ = [] := by simp [h.lexical]
  have hmatching : matchingErrors program = [] := by simp [h.resolved]
  rw [pass_eq]
  simp only [Session.outcome, Session.settled, Session.noted, hread, hreading, hmatching, hclean,
    h.resolved, List.isEmpty_nil, Bool.not_true, Bool.or_self, Bool.false_eq_true, if_false]
  rw [← Run.Outcome.ended_iff]
  split
  · next hended => simp [hended, eq_comm]
  · next hended => simp [hended]

end Session

/-! ## Two sources -/

/-- Takes in two sources one after the other, the second one unless the first one ended with an error.
Gives the session between them and the last one. -/
def inPieces (fuel : Nat) (clock : Nat → Float) (sink : Sink) (first second : String) :
    Option (Session × Session) := do
  let middle ← (Session.start clock sink .empty).pass fuel first
  if middle.report.hadRuntimeError then
    return (middle, middle)
  else
    return (middle, ← middle.pass fuel second)

theorem inPieces_of_interrupted {fuel : Nat} {clock : Nat → Float} {sink : Sink}
    {first second : String} {middle : Session}
    (hfirst : (Session.start clock sink .empty).pass fuel first = some middle)
    (h : middle.report.hadRuntimeError = true) :
    inPieces fuel clock sink first second = some (middle, middle) := by
  rw [inPieces, hfirst, Option.bind_eq_bind, Option.bind_some, if_pos h]
  rfl

theorem inPieces_of_finished {fuel : Nat} {clock : Nat → Float} {sink : Sink}
    {first second : String} {middle final : Session}
    (hfirst : (Session.start clock sink .empty).pass fuel first = some middle)
    (h : middle.report.hadRuntimeError = false) (hsecond : middle.pass fuel second = some final) :
    inPieces fuel clock sink first second = some (middle, final) := by
  rw [inPieces, hfirst, Option.bind_eq_bind, Option.bind_some, if_neg (by simp [h]), hsecond]
  rfl

/-- The whole was taken in as its pieces were: the sessions after the first piece and at the end. -/
structure AsInPieces (fuel : Nat) (first second : String) (middle final whole : Session) :
    Prop where
  written : whole.machine.output.written = final.machine.output.written
  /-- Without an error nothing is reported. -/
  clean : final.report.hadRuntimeError = false → final.report = .empty ∧ whole.report = .empty
  /-- An error of the first piece is reported as it is. -/
  broken : middle.report.hadRuntimeError → whole.report = middle.report
  /-- A run-time error of the second piece is reported further down if it was raised in the second
  piece, and as it is if it was raised in the first one. -/
  moved : middle.report.hadRuntimeError = false → final.report.hadRuntimeError →
    (∃ message, final.report = Report.empty.add (.output message) ∧
      whole.report = Report.empty.add (.output message)) ∨
    ∃ error error', final.report = Report.empty.add (.ofRuntime error) ∧
      whole.report = Report.empty.add (.ofRuntime error') ∧
        let above := (Grammar.parse (tokens first) 0).statements
        let below := (middle.reading second).statements
        Relocated (.down (linesAbove first)) fuel above below
          (middle.machine.learn (Scope.resolve below).1) error error'

theorem Run.WholeEnds.fueled {related : RuntimeError → RuntimeError → Prop}
    {outcome outcome' : Run.Outcome Unit} (h : WholeEnds related outcome outcome') :
    Fueled outcome' := by
  cases h <;> simp [Fueled]

/-- The session after a run that the report was empty before. -/
def Session.afterRun (nextId : NodeId) (outcome : Run.Outcome Unit) : Session :=
  ⟨outcome.machine, nextId, Report.empty.extend outcome.diagnostics⟩

section

variable {fuel : Nat} {first second : String} {between after : Run.Machine}
  {interrupt : Run.Interrupt} {outcome outcome' : Run.Outcome Unit} {middle last last' : NodeId}

theorem asInPieces_of_broken (hends : WholeEnds Eq (.error interrupt after) outcome') :
    AsInPieces fuel first second (.afterRun middle (.error interrupt after))
      (.afterRun middle (.error interrupt after)) (.afterRun last' outcome') := by
  cases hends with
  | @fault error error' _ after' hsame hwritten =>
      obtain rfl := hsame
      exact ⟨hwritten, fun h => (by cases h), fun _ => rfl, fun h => (by cases h)⟩
  | refused message hwritten =>
      exact ⟨hwritten, fun h => (by cases h), fun _ => rfl, fun h => (by cases h)⟩

theorem asInPieces_of_finished
    (hends :
      let above := (Grammar.parse (tokens first) 0).statements
      let below := (Grammar.parse (tokens second) middle).statements
      WholeEnds (Relocated (.down (linesAbove first)) fuel above below
        (between.learn (Scope.resolve below).1)) outcome outcome') :
    AsInPieces fuel first second (.afterRun middle (.ok () between)) (.afterRun last outcome)
      (.afterRun last' outcome') := by
  cases hends with
  | finished hwritten =>
      exact ⟨hwritten, fun _ => ⟨rfl, rfl⟩, fun h => (by cases h), fun _ h => (by cases h)⟩
  | fault hrelocated hwritten =>
      exact ⟨hwritten, fun h => (by cases h), fun h => (by cases h), fun _ _ =>
        .inr ⟨_, _, rfl, rfl, hrelocated⟩⟩
  | refused message hwritten =>
      exact ⟨hwritten, fun h => (by cases h), fun h => (by cases h), fun _ _ =>
        .inl ⟨message, rfl, rfl⟩⟩

end

/-- The run of an accepted source that ends does so alike with more fuel. -/
theorem run_more {fuel more : Nat} {clock : Nat → Float} {sink : Sink} {source : String}
    {program : List Stmt} {distances : Scope.Distances} {last : NodeId} {whole : Session}
    (haccepted : Accepted source 0 program distances last)
    (h : run fuel clock sink source .empty = some whole) (hle : fuel ≤ more) :
    run more clock sink source .empty = some whole := by
  rw [run_eq_pass, Session.pass_accepted haccepted rfl] at h ⊢
  obtain ⟨hfueled, rfl⟩ := h
  have hmore : Run.interpret more program distances (.start clock sink) =
      Run.interpret fuel program distances (.start clock sink) := Run.interpret_more hfueled hle
  refine ⟨?_, ?_⟩
  · exact hmore ▸ hfueled
  · exact congrArg (Session.afterRun last) hmore.symm

theorem run_of_wholeEnds {clock : Nat → Float} {sink : Sink} {source : String}
    {program : List Stmt} {distances : Scope.Distances} {last : NodeId}
    (haccepted : Accepted source 0 program distances last)
    {related : RuntimeError → RuntimeError → Prop} {outcome : Run.Outcome Unit} {enough more : Nat}
    (hends : WholeEnds related outcome
      (Run.interpret enough program distances (.start clock sink))) (hle : enough ≤ more) :
    run more clock sink source .empty =
      some (.afterRun last (Run.interpret enough program distances (.start clock sink))) := by
  refine run_more haccepted ?_ hle
  rw [run_eq_pass, Session.pass_accepted haccepted rfl]
  exact ⟨hends.fueled, rfl⟩

section

variable {first second : String} (hfirst : ¬HasStaticError first) (hsecond : ¬HasStaticError second)
  (clock : Nat → Float) {sink : Sink} (hflush : ∀ index, sink.refuseFlush index = none)
  {fuel : Nat}

include hfirst hsecond hflush

theorem whole_of_inPieces {middle final : Session}
    (hpieces : inPieces fuel clock sink first second = some (middle, final)) :
    ∃ enough whole, fuel ≤ enough ∧
      (∀ more, enough ≤ more → run more clock sink (first ++ "\n" ++ second) .empty = some whole) ∧
        AsInPieces fuel first second middle final whole := by
  have habove := accepted_of_not_hasStaticError hfirst 0
  have hbelow := accepted_of_not_hasStaticError hsecond (Grammar.parse (tokens first) 0).nextId
  obtain ⟨above', below', whole, last', hwhole, hjoined⟩ := habove.joined hbelow 0
  rw [inPieces, Option.bind_eq_bind, Option.bind_eq_some_iff] at hpieces
  obtain ⟨between, hpass, hpieces⟩ := hpieces
  rw [Session.pass_accepted habove rfl] at hpass
  obtain ⟨hfueled, hbetween⟩ := hpass
  change between = Session.afterRun _ (Run.interpret fuel _ _ (.start clock sink)) at hbetween
  change Fueled (Run.interpret fuel _ _ (.start clock sink)) at hfueled
  cases hend : Run.interpret fuel _ _ (.start clock sink) with
  | error interrupt after =>
      have hlack : interrupt ≠ .outOfFuel := by
        rintro rfl
        exact hfueled after hend
      have hends := hjoined.first_interrupted habove.checked clock hflush hend hlack (Nat.le_refl _)
      have hmarked : between.report.hadRuntimeError = true := by
        rw [hbetween, hend]
        generalize Run.interpret fuel (above' ++ below') _ _ = outcome' at hends
        cases hends <;> rfl
      rw [if_pos hmarked] at hpieces
      obtain ⟨rfl, rfl⟩ := Prod.mk.inj (Option.some.inj hpieces)
      refine ⟨fuel, _, Nat.le_refl _, fun more hle => run_of_wholeEnds hwhole hends hle, ?_⟩
      rw [hbetween, hend]
      exact asInPieces_of_broken hends
  | ok result machine =>
      rw [hend] at hbetween
      subst hbetween
      have hclean : ¬(Session.afterRun (Grammar.parse (tokens first) 0).nextId
          (.ok result machine)).report.hadRuntimeError = true := Bool.false_ne_true
      rw [if_neg hclean, Option.bind_eq_some_iff] at hpieces
      obtain ⟨last, hpass, hlast⟩ := hpieces
      obtain ⟨rfl, rfl⟩ := Prod.mk.inj (Option.some.inj hlast)
      rw [Session.pass_accepted hbelow rfl] at hpass
      obtain ⟨hfueled, rfl⟩ := hpass
      have hends := hjoined.second_ends habove.checked clock hflush (Run.faithful_down _)
        hbelow.checked hend hfueled (Nat.le_refl _)
      exact ⟨fuel + above'.length, _, Nat.le_add_right .., fun more hle =>
        run_of_wholeEnds hwhole hends hle, asInPieces_of_finished hends⟩

theorem inPieces_of_whole {whole : Session}
    (hrun : run fuel clock sink (first ++ "\n" ++ second) .empty = some whole) :
    ∃ middle final, inPieces fuel clock sink first second = some (middle, final) := by
  have habove := accepted_of_not_hasStaticError hfirst 0
  have hbelow := accepted_of_not_hasStaticError hsecond (Grammar.parse (tokens first) 0).nextId
  obtain ⟨above', below', distances, last', hwhole, hjoined⟩ := habove.joined hbelow 0
  rw [run_eq_pass, Session.pass_accepted hwhole rfl] at hrun
  obtain ⟨hmiddle, hfinal⟩ := hjoined.pieces_fueled habove.checked clock hflush
    (Run.faithful_down _) hbelow.checked hrun.1
  have hpass : (Session.start clock sink .empty).pass fuel first =
      some (.afterRun (Grammar.parse (tokens first) 0).nextId (Run.interpret fuel _ _ _)) :=
    (Session.pass_accepted habove rfl).mpr ⟨hmiddle, rfl⟩
  change Fueled (Run.interpret fuel _ _ (.start clock sink)) at hmiddle
  cases hend : Run.interpret fuel _ _ (.start clock sink) with
  | ok result machine =>
      rw [show (Session.start clock sink .empty).machine = .start clock sink from rfl, hend] at hpass
      have hlast : Session.pass (.afterRun _ (.ok () machine)) fuel second =
          some (.afterRun _ (Run.interpret fuel _ _ machine)) :=
        (Session.pass_accepted hbelow rfl).mpr ⟨hfinal machine hend, rfl⟩
      exact ⟨_, _, inPieces_of_finished hpass rfl hlast⟩
  | error interrupt after =>
      rw [show (Session.start clock sink .empty).machine = .start clock sink from rfl, hend] at hpass
      refine ⟨_, _, inPieces_of_interrupted hpass ?_⟩
      cases interrupt with
      | fault error => rfl
      | refused message => rfl
      | outOfFuel => exact absurd hend (hmiddle after)

end

/-- Two sources without static errors, with a line break between them, make one without any. On a new
machine it does what the two do one after the other, for every clock and every sink that never refuses
to flush, and it never ends if they do not. -/
theorem whole_does_what_its_pieces_do {first second : String} (hfirst : ¬HasStaticError first)
    (hsecond : ¬HasStaticError second) (clock : Nat → Float) {sink : Sink}
    (hflush : ∀ index, sink.refuseFlush index = none) :
    ¬HasStaticError (first ++ "\n" ++ second) ∧
      (∀ fuel middle final, inPieces fuel clock sink first second = some (middle, final) →
        ∃ enough whole,
          (∀ more, enough ≤ more →
            run more clock sink (first ++ "\n" ++ second) .empty = some whole) ∧
          AsInPieces fuel first second middle final whole) ∧
      ∀ fuel whole, run fuel clock sink (first ++ "\n" ++ second) .empty = some whole →
        ∃ middle final, inPieces fuel clock sink first second = some (middle, final) ∧
          AsInPieces fuel first second middle final whole := by
  refine ⟨?_, fun fuel middle final hpieces => ?_, fun fuel whole hrun => ?_⟩
  · have habove := accepted_of_not_hasStaticError hfirst 0
    have hbelow := accepted_of_not_hasStaticError hsecond (Grammar.parse (tokens first) 0).nextId
    obtain ⟨above', below', distances, last', hwhole, -⟩ := habove.joined hbelow 0
    exact hwhole.not_hasStaticError
  · obtain ⟨enough, whole, -, hruns, halike⟩ :=
      whole_of_inPieces hfirst hsecond clock hflush hpieces
    exact ⟨enough, whole, hruns, halike⟩
  · obtain ⟨middle, final, hpieces⟩ := inPieces_of_whole hfirst hsecond clock hflush hrun
    obtain ⟨enough, found, hle, hruns, halike⟩ :=
      whole_of_inPieces hfirst hsecond clock hflush hpieces
    obtain ⟨above', below', distances, last', haccepted, -⟩ :=
      (accepted_of_not_hasStaticError hfirst 0).joined
        (accepted_of_not_hasStaticError hsecond (Grammar.parse (tokens first) 0).nextId) 0
    have hsame : some found = some whole :=
      (hruns enough (Nat.le_refl _)).symm.trans (run_more haccepted hrun hle)
    rw [← Option.some.inj hsame]
    exact ⟨middle, final, hpieces, halike⟩

theorem whole_does_what_its_pieces_do_negation :
    ¬HasStaticError "var a;" ∧ ¬HasStaticError "-a;" ∧
      (∀ index, Sink.unlimited.refuseFlush index = none) ∧
        ∃ middle final whole, inPieces 6 (fun _ => 0) .unlimited "var a;" "-a;" = some (middle, final) ∧
          run 6 (fun _ => 0) .unlimited "var a;\n-a;" .empty = some whole ∧
            AsInPieces 6 "var a;" "-a;" middle final whole ∧
              final.report.held =
                [.runtime "Operand must be a number." ⟨.symbol .minus, "-", 1⟩] ∧
              whole.report.held =
                [.runtime "Operand must be a number." ⟨.symbol .minus, "-", 2⟩] := by
  have hfirst : ¬HasStaticError "var a;" := by
    rintro (h | h | h) <;> exact h rfl
  have hsecond : ¬HasStaticError "-a;" := by
    rintro (h | h | h) <;> exact h rfl
  have hflush : ∀ index, Sink.unlimited.refuseFlush index = none := fun _ => rfl
  obtain ⟨whole, hrun⟩ : ∃ whole,
      run 6 (fun _ => 0) .unlimited "var a;\n-a;" .empty = some whole := ⟨_, rfl⟩
  obtain ⟨middle, final, hpieces, halike⟩ :=
    (whole_does_what_its_pieces_do hfirst hsecond (fun _ => 0) hflush).2.2 6 whole hrun
  refine ⟨hfirst, hsecond, hflush, middle, final, whole, hpieces, hrun, halike, ?_, ?_⟩
  · cases hpieces
    rfl
  · cases hrun
    rfl

end Lox
