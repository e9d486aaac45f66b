import Lox.Proofs.Run.FullSink
import Lox.Proofs.Session.Pieces

/-!
# A full sink

A source that is run on a sink that takes the first bytes only writes the bytes that fit, and then
ends with the refusal of the sink. If all bytes fit, nothing is different.
-/

namespace Lox

open Run (Sink Machine Capped)

theorem Run.Machine.unlimited_start (clock : Nat → Float) :
    (Machine.start clock .unlimited).Unlimited :=
  ⟨rfl, rfl⟩

/-- What is seen of an outcome that is cut at a limit. -/
theorem Run.Capped.seen {limit : Nat} {outcome outcome' : Run.Outcome Unit}
    (h : Capped limit outcome outcome') (hfueled : Run.Fueled outcome) :
    Run.Fueled outcome' ∧ outcome'.machine.bytes = outcome.machine.bytes.take limit ∧
      (outcome.machine.bytes.length ≤ limit → outcome'.diagnostics = outcome.diagnostics) ∧
      (limit < outcome.machine.bytes.length → outcome'.diagnostics = [.output "sink full"]) := by
  cases h with
  | fits hfits =>
      refine ⟨fun last hlast => ?_, ?_, fun _ => ?_, fun hfull =>
        absurd hfits (Nat.not_le_of_lt hfull)⟩
      · cases outcome with
        | ok a after => cases hlast
        | error interrupt after =>
            cases hlast
            exact hfueled after rfl
      · rw [List.take_of_length_le hfits]
        cases outcome <;> rfl
      · cases outcome with
        | ok a after => rfl
        | error interrupt after => cases interrupt <;> rfl
  | full hfull htake =>
      exact ⟨nofun, htake, fun hfits => absurd hfits (Nat.not_le_of_lt hfull), fun _ => rfl⟩

/-- The program of a source without static errors is run on a new machine. -/
theorem run_accepted {fuel : Nat} {clock : Nat → Float} {sink : Sink} {source : String}
    {report : Report} {session : Session} (hsource : ¬HasStaticError source)
    (hreport : report.hadError = false) :
    run fuel clock sink source report = some session ↔
      let program := Grammar.parse (tokens source) 0
      let outcome : Run.Outcome Unit := Run.interpret fuel program.statements
        (Scope.resolve program.statements).1 (.start clock sink)
      Run.Fueled outcome ∧
        session = ⟨outcome.machine, program.nextId, report.extend outcome.diagnostics⟩ := by
  rw [run_eq_pass]
  exact Session.pass_accepted (accepted_of_not_hasStaticError hsource 0) hreport

/-- A source without static errors whose run ends on an unlimited sink also ends on a sink that
takes only so many bytes. It has written the first of the same bytes then. If these are all, the
report is the same; otherwise the refusal of the sink is the only error of the run. -/
theorem full_sink_truncates {fuel : Nat} {clock : Nat → Float} {source : String} {report : Report}
    {session : Session} (hsource : ¬HasStaticError source) (hreport : report.hadError = false)
    (hrun : run fuel clock .unlimited source report = some session) (limit : Nat) :
    ∃ session', run fuel clock (.limited (some limit) false) source report = some session' ∧
      session'.machine.bytes = session.machine.bytes.take limit ∧
      (session.machine.bytes.length ≤ limit → session'.report = session.report) ∧
      (limit < session.machine.bytes.length →
        session'.report = report.add (.output "sink full")) := by
  obtain ⟨hfueled, rfl⟩ := (run_accepted hsource hreport).mp hrun
  let program := Grammar.parse (tokens source) 0
  let action := Run.interpret fuel program.statements (Scope.resolve program.statements).1
  have hcapped : Capped limit (action (.start clock .unlimited))
      (action (.start clock (.limited (some limit) false))) :=
    (Run.interpret_truncating fuel _ _ _ (Machine.unlimited_start clock)).capped limit
      (Nat.zero_le _)
  obtain ⟨hfueled', hbytes, hfits, hfull⟩ := hcapped.seen hfueled
  refine ⟨_, (run_accepted hsource hreport).mpr ⟨hfueled', rfl⟩, hbytes, fun hroom => ?_,
    fun hlimit => ?_⟩
  · exact congrArg report.extend (hfits hroom)
  · exact congrArg report.extend (hfull hlimit)

theorem full_sink_truncates_print :
    ¬HasStaticError "print nil;" ∧
      ∃ session, run 6 (fun _ => 0) .unlimited "print nil;" .empty = some session ∧
        session.machine.bytes = [110, 105, 108, 10] ∧
      ∃ session', run 6 (fun _ => 0) (.limited (some 2) false) "print nil;" .empty = some session' ∧
        session'.machine.bytes = [110, 105] ∧
        session'.report = ⟨[.output "sink full"], false, true⟩ := by
  have hsource : ¬HasStaticError "print nil;" := by
    simp only [HasStaticError, not_or, Classical.not_not]
    exact ⟨by rfl, by rfl, by rfl⟩
  have hwritten : (run 6 (fun _ => 0) .unlimited "print nil;" .empty).map (·.machine.bytes) =
      some [110, 105, 108, 10] := by
    decide +kernel
  obtain ⟨session, hrun, hwritten⟩ := Option.map_eq_some_iff.mp hwritten
  obtain ⟨session', hrun', hbytes, -, hfull⟩ := full_sink_truncates hsource rfl hrun 2
  refine ⟨hsource, session, hrun, hwritten, session', hrun', ?_, hfull (by rw [hwritten]; decide)⟩
  rw [hbytes, hwritten]
  rfl

end Lox
