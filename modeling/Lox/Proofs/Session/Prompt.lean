import Lox.CommandLine
import Lox.Proofs.Run.Renumbering
import Lox.Proofs.Session.Stages

/-!
# Lines that are rejected

At a prompt every line is taken in by the session that the lines before it have left. A line with a
static error leaves nothing behind but identities that are drawn already, and these make no
difference to the lines after it.
-/

namespace Lox.Session

open Run (Sink Machine Abreast SameEnd Renumbered)

/-! ## The prompt -/

/-- What is seen of a line. -/
structure Answer where
  output : Run.Output
  report : Report

/-- The session for the next line: the report is empty, and the output begins afresh or goes on. -/
def ready (session : Session) (afresh : Bool) : Session :=
  if afresh then session.reset.restartOutput else session.reset

/-- Takes in a line. Gives what is seen of it and the session for the next line. -/
def enter (session : Session) (fuel : Nat) (afresh : Bool) (line : String) :
    Option (Answer × Session) :=
  (session.pass fuel line).map fun after =>
    (⟨after.machine.output, after.report⟩, after.ready afresh)

/-- What is seen of the lines, one by one. There is nothing to be seen from a line on that lacks
fuel. -/
def answers (fuel : Nat) (afresh : Bool) : Session → List String → List (Option Answer)
  | _, [] => []
  | session, line :: rest =>
      match session.enter fuel afresh line with
      | some (answer, next) => some answer :: answers fuel afresh next rest
      | none => none :: rest.map fun _ => none

/-- At the prompt of the command line the output begins afresh with each line. -/
theorem submitLine_eq_enter (fuel : Nat) (session : Session) (line : String) :
    CommandLine.submitLine fuel session line =
      (session.enter fuel true line).map fun (answer, next) =>
        (answer.output.text, CommandLine.displayed answer.report, next) := by
  change (session.pass fuel line >>= fun after => some (after.machine.output.text,
    CommandLine.displayed after.report, after.ready true)) = _
  rw [enter]
  cases session.pass fuel line <;> rfl

/-! ## Sessions abreast of each other -/

/-- Sessions that have taken in the same lines, but for lines that were rejected. -/
structure Linked (session session' : Session) : Prop where
  report : session'.report = session.report
  machine : Abreast session.nextId session'.nextId session.machine session'.machine

section

variable {session session' : Session} {fuel : Nat} {afresh : Bool} {line : String}

theorem renumbered (session session' : Session) (source : String) :
    Renumbered (session.reading source) (session'.reading source) :=
  Run.renumbered (tokens source) session.nextId session'.nextId

theorem nextId_le_reading (session : Session) (source : String) :
    session.nextId ≤ (session.reading source).nextId :=
  (Grammar.parse_fresh (tokens source) session.nextId).le

namespace Linked

theorem noted (h : Linked session session') (source : String) (diagnostics : List Diagnostic) :
    Linked (session.noted source diagnostics) (session'.noted source diagnostics) :=
  ⟨by rw [Session.noted, Session.noted, h.report],
    h.machine.skip (session.nextId_le_reading source) (session'.nextId_le_reading source)⟩

theorem settled (h : Linked session session') (source : String) {outcome outcome' : Run.Outcome Unit}
    (hend : SameEnd (Abreast (session.reading source).nextId (session'.reading source).nextId)
      outcome outcome') :
    outcome'.ended = outcome.ended ∧
      Linked (session.settled source outcome) (session'.settled source outcome') := by
  cases hend with
  | finished habreast => exact ⟨rfl, by simp only [Session.settled, Session.noted, h.report]; rfl, habreast⟩
  | interrupted interrupt habreast =>
      cases interrupt <;>
        exact ⟨rfl, by simp only [Session.settled, Session.noted, h.report]; rfl, habreast⟩

/-- Sessions abreast of each other take in a source alike. -/
theorem pass (h : Linked session session') (fuel : Nat) (source : String) :
    Option.Rel Linked (session.pass fuel source) (session'.pass fuel source) := by
  have hsame := renumbered session session' source
  have hreading : readingErrors source (session'.reading source) =
      readingErrors source (session.reading source) := by
    rw [readingErrors, readingErrors, hsame.errors]
  have hmatching : matchingErrors (session'.reading source).statements =
      matchingErrors (session.reading source).statements := by
    rw [matchingErrors, matchingErrors, hsame.broken]
  rw [pass_eq, pass_eq]
  simp only [h.report, hreading, hmatching]
  split
  · exact .some (h.noted source _)
  · split
    · exact .some (h.noted source _)
    · next hlawful =>
        have hrules : (Scope.resolve (session.reading source).statements).2 = [] := by
          simpa using hlawful
        obtain ⟨hended, hlinked⟩ := h.settled source (h.machine.interpret source hrules fuel)
        change Option.Rel Linked
          (if (session.outcome fuel source).ended then some _ else none)
          (if (session'.outcome fuel source).ended then some _ else none)
        have hended' : (session'.outcome fuel source).ended = (session.outcome fuel source).ended :=
          hended
        rw [hended']
        split
        · exact .some hlinked
        · exact .none

theorem ready (h : Linked session session') (afresh : Bool) :
    Linked (session.ready afresh) (session'.ready afresh) := by
  cases afresh with
  | true => exact ⟨rfl, h.machine.withOutput .start⟩
  | false => exact ⟨rfl, h.machine⟩

/-- What is seen of a line is the same on both sides, and the sessions stay abreast. -/
theorem enter (h : Linked session session') (fuel : Nat) (afresh : Bool) (line : String) :
    Option.Rel (fun entered entered' => entered'.1 = entered.1 ∧ Linked entered.2 entered'.2)
      (session.enter fuel afresh line) (session'.enter fuel afresh line) := by
  have hpass := h.pass fuel line
  rw [Session.enter, Session.enter]
  generalize session.pass fuel line = left at hpass
  generalize session'.pass fuel line = right at hpass
  cases hpass with
  | none => exact .none
  | some hafter =>
      refine .some ⟨?_, hafter.ready afresh⟩
      simp only [hafter.report, hafter.machine.output]

/-- The same is seen of all lines. -/
theorem answers (h : Linked session session') (fuel : Nat) (afresh : Bool) (lines : List String) :
    answers fuel afresh session' lines = answers fuel afresh session lines := by
  induction lines generalizing session session' with
  | nil => rfl
  | cons line rest ih =>
      have henter := h.enter fuel afresh line
      rw [Session.answers, Session.answers]
      cases hleft : session.enter fuel afresh line with
      | none =>
          rw [hleft] at henter
          generalize session'.enter fuel afresh line = right at henter
          cases henter
          rfl
      | some entered =>
          rw [hleft] at henter
          generalize session'.enter fuel afresh line = right at henter
          cases henter with
          | some hentered =>
              obtain ⟨hanswer, hnext⟩ := hentered
              simp only [hanswer, ih hnext]

end Linked

/-! ## A rejected line -/

/-- The session waits for a line. -/
structure Waiting (afresh : Bool) (session : Session) : Prop where
  report : session.report = .empty
  output : afresh → session.machine.output = .start

theorem waiting_ready (session : Session) (afresh : Bool) : Waiting afresh (session.ready afresh) := by
  cases afresh with
  | true => exact ⟨rfl, fun _ => rfl⟩
  | false => exact ⟨rfl, fun h => by cases h⟩

/-- A line with a static error draws identities and leaves the session as it is otherwise. -/
theorem Waiting.rejected (h : Waiting afresh session) {answer : Answer} {next : Session}
    (henter : session.enter fuel afresh line = some (answer, next))
    (hrejected : answer.report.hadError) :
    next = { session with nextId := (session.reading line).nextId } := by
  obtain ⟨machine, nextId, report⟩ := session
  obtain ⟨rfl, houtput⟩ := h
  have hnoted : ∀ diagnostics,
      (Session.noted ⟨machine, nextId, .empty⟩ line diagnostics).ready afresh =
        ⟨machine, (Session.reading ⟨machine, nextId, .empty⟩ line).nextId, .empty⟩ := by
    intro diagnostics
    cases afresh with
    | false => rfl
    | true =>
        obtain ⟨heap, environment, callDepth, distances, clock, clockReads, sink, output⟩ := machine
        cases houtput rfl
        rfl
  rw [Session.enter, Option.map_eq_some_iff] at henter
  obtain ⟨after, hpass, hafter⟩ := henter
  obtain ⟨rfl, rfl⟩ := Prod.mk.inj hafter
  rw [pass_eq] at hpass
  simp only at hpass
  split at hpass
  · cases hpass
    exact hnoted _
  · split at hpass
    · cases hpass
      exact hnoted _
    · split at hpass
      · cases hpass
        have hrunning := (Run.Outcome.diagnostics_running
          (Session.outcome ⟨machine, nextId, .empty⟩ fuel line)).2
        simp [Session.settled, Session.noted, Report.empty] at hrejected
        obtain ⟨d, hd, hstatic⟩ := hrejected
        simp [hrunning d hd] at hstatic
      · cases hpass

/-- A session from which a rejected line is left out is abreast of the one that has taken it in. -/
theorem Linked.reject (h : Linked session session') (hwaiting : Waiting afresh session)
    {answer : Answer} {next : Session}
    (henter : session.enter fuel afresh line = some (answer, next))
    (hrejected : answer.report.hadError) : Linked next session' := by
  rw [hwaiting.rejected henter hrejected]
  exact ⟨h.report, h.machine.skip (session.nextId_le_reading line) (Nat.le_refl _)⟩

/-- The same is seen of all lines but the rejected one. -/
theorem answers_eraseIdx {lines : List String} (h : Linked session session')
    (hwaiting : Waiting afresh session) {i : Nat} {answer : Answer}
    (hanswer : (answers fuel afresh session lines)[i]? = some (some answer))
    (hrejected : answer.report.hadError) :
    answers fuel afresh session' (lines.eraseIdx i) =
      (answers fuel afresh session lines).eraseIdx i := by
  induction lines generalizing session session' i with
  | nil => simp [answers] at hanswer
  | cons line rest ih =>
      rw [Session.answers] at hanswer ⊢
      cases hleft : session.enter fuel afresh line with
      | none =>
          rw [hleft] at hanswer
          cases i with
          | zero => cases hanswer
          | succ i =>
              have hmissing : (rest.map fun _ => none)[i]? = some (some answer) := hanswer
              obtain ⟨-, -, hnone⟩ := List.mem_map.mp (List.mem_of_getElem? hmissing)
              cases hnone
      | some entered =>
          obtain ⟨found, next⟩ := entered
          rw [hleft] at hanswer
          cases i with
          | zero =>
              cases hanswer
              exact (h.reject hwaiting hleft hrejected).answers fuel afresh rest
          | succ i =>
              have henter := h.enter fuel afresh line
              rw [hleft] at henter
              generalize hright : session'.enter fuel afresh line = right at henter
              cases henter with
              | @some _ entered' hentered =>
                  obtain ⟨hfound, hnext⟩ := hentered
                  obtain ⟨found', next'⟩ := entered'
                  cases hfound
                  have hwaits : Waiting afresh next := by
                    rw [Session.enter, Option.map_eq_some_iff] at hleft
                    obtain ⟨after, -, hafter⟩ := hleft
                    obtain ⟨-, rfl⟩ := Prod.mk.inj hafter
                    exact waiting_ready after afresh
                  rw [List.eraseIdx_cons_succ, Session.answers, hright]
                  exact congrArg (some found :: ·) (ih hnext hwaits hanswer)

end

/-! ## The prompt without a rejected line -/

/-- Leaving out a line with a static error changes nothing that is seen of the other lines: what they
write, what is reported of them and how they end, for any clock and sink. -/
theorem rejected_line_can_be_left_out (fuel : Nat) (afresh : Bool) (clock : Nat → Float)
    (sink : Sink) (lines : List String) (i : Nat) (answer : Answer)
    (hanswer : (answers fuel afresh (.start clock sink .empty) lines)[i]? = some (some answer))
    (hrejected : answer.report.hadError) :
    answers fuel afresh (.start clock sink .empty) (lines.eraseIdx i) =
      (answers fuel afresh (.start clock sink .empty) lines).eraseIdx i :=
  have hlinked : Linked (.start clock sink .empty) (.start clock sink .empty) :=
    ⟨rfl, .start clock sink 0 0⟩
  answers_eraseIdx hlinked ⟨rfl, fun _ => rfl⟩ hanswer hrejected

theorem rejected_line_can_be_left_out_parenthesis :
    let session := start (fun _ => 0) .unlimited .empty
    let answer : Answer := ⟨.start,
      ⟨[.syntactic "Expect expression." ⟨.symbol .rightParen, ")", 1⟩], true, false⟩⟩
    (answers 9 true session ["var a;", ")", "print a;"])[1]? = some (some answer) ∧
      answer.report.hadError ∧
        answers 9 true session ["var a;", "print a;"] =
          (answers 9 true session ["var a;", ")", "print a;"]).eraseIdx 1 := by
  intro session answer
  have hanswer : (answers 9 true session ["var a;", ")", "print a;"])[1]? = some (some answer) := rfl
  exact ⟨hanswer, rfl, rejected_line_can_be_left_out 9 true (fun _ => 0) .unlimited
    ["var a;", ")", "print a;"] 1 answer hanswer rfl⟩

end Lox.Session
