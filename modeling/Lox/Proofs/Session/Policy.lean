import Lox.Proofs.Session.Stages

/-!
# When a source is run

A source adds its errors to a report stage by stage, behind what the report holds already. A static
error, also one from before, keeps the program from running, so that nothing is written.
-/

namespace Lox

open Run (Sink Machine Output)

/-- What a source adds to a report, stage by stage. -/
structure Additions where
  lexical : List LexicalError
  syntactic : List SyntaxError
  scoping : List Scope.ScopeError
  running : List Diagnostic

/-- The additions in order. -/
def Additions.all (additions : Additions) : List Diagnostic :=
  additions.lexical.map .ofLexical ++ additions.syntactic.map .ofSyntax ++
    additions.scoping.map .ofScope ++ additions.running

/-- The run of a source left the session behind after these additions to the report. -/
structure Staged (fuel : Nat) (clock : Nat → Float) (sink : Sink) (source : String)
    (report : Report) (additions : Additions) (session : Session) : Prop where
  /-- What was held stays in front. -/
  held : session.report.held = report.held ++ additions.all
  lexical : additions.lexical = lexicalErrors source
  syntactic : additions.syntactic = (Grammar.parse (tokens source) 0).errors
  /-- Names are matched only if nothing was wrong before. -/
  scoping : additions.scoping =
    if report.hadError = false ∧ additions.lexical.isEmpty ∧ additions.syntactic.isEmpty then
      (Scope.resolve (Grammar.parse (tokens source) 0).statements).2
    else []
  /-- At most one error arises while running, and it is none of the static ones. -/
  running : additions.running.length ≤ 1 ∧ ∀ d ∈ additions.running, d.isStatic = false
  /-- With a static error nothing is run, so that the sink is not even flushed. -/
  stopped : session.report.hadError → session.machine = .start clock sink ∧ additions.running = []
  /-- Without a static error the program is run, and the run is not interrupted without a word. -/
  ran : session.report.hadError = false →
    let program := (Grammar.parse (tokens source) 0).statements
    let outcome : Run.Outcome Unit :=
      Run.interpret fuel program (Scope.resolve program).1 (.start clock sink)
    session.machine = outcome.machine ∧ additions.running = outcome.diagnostics
  hadError : session.report.hadError ↔ report.hadError ∨ ∃ d ∈ additions.all, d.isStatic
  hadRuntimeError : session.report.hadRuntimeError ↔
    report.hadRuntimeError ∨ ∃ d ∈ additions.all, d.isStatic = false

/-! ## What is added -/

/-- The machine after a source and the additions to a report, given whether the report shows a
static error already. -/
def taken (fuel : Nat) (clock : Nat → Float) (sink : Sink) (source : String) (marked : Bool) :
    Option (Machine × Additions) :=
  let program := Grammar.parse (tokens source) 0
  let outcome := (Session.start clock sink .empty).outcome fuel source
  if marked || !(readingErrors source program).isEmpty then
    some (.start clock sink, ⟨lexicalErrors source, program.errors, [], []⟩)
  else if !(matchingErrors program.statements).isEmpty then
    some (.start clock sink, ⟨[], [], (Scope.resolve program.statements).2, []⟩)
  else if outcome.ended then some (outcome.machine, ⟨[], [], [], outcome.diagnostics⟩)
  else none

/-- A run adds to the report, and is the same for all reports that show a static error and for all
that show none. -/
theorem run_eq_taken (fuel : Nat) (clock : Nat → Float) (sink : Sink) (source : String)
    (report : Report) :
    run fuel clock sink source report =
      (taken fuel clock sink source report.hadError).map fun (machine, additions) =>
        ⟨machine, (Grammar.parse (tokens source) 0).nextId, report.extend additions.all⟩ := by
  rw [run_eq_pass, Session.pass_eq, taken]
  change (if report.hadError || !(readingErrors source (Grammar.parse (tokens source) 0)).isEmpty
    then _ else _) = _
  split
  · simp [Additions.all, readingErrors, Session.noted, Session.start, Session.reading]
  · change (if !(matchingErrors (Grammar.parse (tokens source) 0).statements).isEmpty
      then _ else _) = _
    split
    · simp [Additions.all, matchingErrors, Session.noted, Session.start, Session.reading]
    · change (if ((Session.start clock sink .empty).outcome fuel source).ended then _ else _) = _
      split
      · simp [Additions.all, Session.settled, Session.noted, Session.start, Session.reading,
          Session.outcome]
      · rfl

section

variable {fuel : Nat} {clock : Nat → Float} {sink : Sink} {source : String} {marked : Bool}
  {report : Report} {machine : Machine} {additions : Additions}

/-- A source with a static error needs no fuel. -/
theorem taken_isSome (h : marked ∨ HasStaticError source) :
    (taken fuel clock sink source marked).isSome := by
  rw [taken]
  split
  · rfl
  · next hread =>
      split
      · rfl
      · next hmatched =>
          simp at hread hmatched
          rcases h with hmarked | hlexical | hsyntactic | hscoping
          · simp [hmarked] at hread
          · exact (hlexical hread.2.1).elim
          · exact (hsyntactic hread.2.2).elim
          · exact (hscoping hmatched).elim

/-- A static error shows if it was there before or was found at any of the static stages. -/
theorem hadError_additions (report : Report) (additions : Additions)
    (h : ∀ d ∈ additions.running, d.isStatic = false) :
    (report.extend additions.all).hadError = true ↔ report.hadError = true ∨
      additions.lexical ≠ [] ∨ additions.syntactic ≠ [] ∨ additions.scoping ≠ [] := by
  have hrunning : additions.running.any Diagnostic.isStatic = false := by simpa using h
  rw [Report.hadError_extend, Additions.all, List.any_append, List.any_append, List.any_append,
    hrunning, any_isStatic (by simp [Diagnostic.ofLexical, Diagnostic.isStatic]),
    any_isStatic (by simp [Diagnostic.ofSyntax, Diagnostic.isStatic]),
    any_isStatic (by simp [Diagnostic.ofScope, Diagnostic.isStatic])]
  simp [or_assoc]

/-- What was run or not, seen from the marks of the report afterwards. -/
theorem staged_of_taken
    (h : taken fuel clock sink source report.hadError = some (machine, additions)) :
    Staged fuel clock sink source report additions
      ⟨machine, (Grammar.parse (tokens source) 0).nextId, report.extend additions.all⟩ := by
  have hheld := Report.held_extend report additions.all
  have hstatic : (report.extend additions.all).hadError ↔
      report.hadError ∨ ∃ d ∈ additions.all, d.isStatic := by simp
  have hrunning : (report.extend additions.all).hadRuntimeError ↔
      report.hadRuntimeError ∨ ∃ d ∈ additions.all, d.isStatic = false := by simp
  rw [taken] at h
  split at h
  · next hread =>
      obtain ⟨rfl, rfl⟩ := Prod.mk.inj (Option.some.inj h)
      have hwrong : report.hadError = true ∨ lexicalErrors source ≠ [] ∨
          (Grammar.parse (tokens source) 0).errors ≠ [] := by
        simp at hread
        grind
      have hmarked := (hadError_additions report ⟨lexicalErrors source,
        (Grammar.parse (tokens source) 0).errors, [], []⟩ (by simp)).mpr
          (hwrong.imp_right (.imp_right .inl))
      refine ⟨hheld, rfl, rfl, ?_, by simp, fun _ => ⟨rfl, rfl⟩, fun hclean => ?_, hstatic, hrunning⟩
      · rw [if_neg]
        simp only [List.isEmpty_iff]
        rintro ⟨hbefore, hlexical, hsyntactic⟩
        simp [hbefore, hlexical, hsyntactic] at hwrong
      · rw [hmarked] at hclean
        cases hclean
  · next hread =>
      simp at hread
      obtain ⟨hbefore, hlexical, hsyntactic⟩ := hread
      split at h
      · next hmatched =>
          obtain ⟨rfl, rfl⟩ := Prod.mk.inj (Option.some.inj h)
          have hmarked := (hadError_additions report ⟨[], [],
            (Scope.resolve (Grammar.parse (tokens source) 0).statements).2, []⟩ (by simp)).mpr
          refine ⟨hheld, hlexical.symm, hsyntactic.symm, ?_, by simp, fun _ => ⟨rfl, rfl⟩,
            fun hclean => ?_, hstatic, hrunning⟩
          · simp [hbefore]
          · rw [hmarked (.inr (.inr (.inr (by simpa using hmatched))))] at hclean
            cases hclean
      · next hmatched =>
          split at h
          · obtain ⟨rfl, rfl⟩ := Prod.mk.inj (Option.some.inj h)
            have hends := Run.Outcome.diagnostics_running
              ((Session.start clock sink .empty).outcome fuel source)
            have hclean := (hadError_additions report ⟨[], [], [],
              ((Session.start clock sink .empty).outcome fuel source).diagnostics⟩ hends.2).mp
            refine ⟨hheld, hlexical.symm, hsyntactic.symm, ?_, hends, fun hmarked => ?_,
              fun _ => ⟨rfl, rfl⟩, hstatic, hrunning⟩
            · simp [hbefore, show _ = [] by simpa using hmatched]
            · have hwrong := hclean hmarked
              simp [hbefore] at hwrong
          · cases h

end

/-! ## The policy -/

/-- A source adds to the report lexical errors, then syntax errors, then broken rules and then at most
one error of the run, each stage only if nothing is wrong before it; with a static error, also one from
before, nothing is run or written, and such an error needs no fuel. That the report shows an error of an
earlier run makes no difference. -/
theorem source_is_taken_in_stages (fuel : Nat) (clock : Nat → Float) (sink : Sink)
    (source : String) (report : Report) :
    (report.hadError ∨ HasStaticError source → (run fuel clock sink source report).isSome) ∧
      ∀ session, run fuel clock sink source report = some session →
        ∃ additions, Staged fuel clock sink source report additions session ∧
          ∀ other : Report, other.hadError = report.hadError →
            ∃ session', run fuel clock sink source other = some session' ∧
              session'.machine = session.machine ∧
                Staged fuel clock sink source other additions session' := by
  refine ⟨fun h => ?_, fun session hrun => ?_⟩
  · rw [run_eq_taken, Option.isSome_map]
    exact taken_isSome h
  · rw [run_eq_taken, Option.map_eq_some_iff] at hrun
    obtain ⟨⟨machine, additions⟩, htaken, rfl⟩ := hrun
    refine ⟨additions, staged_of_taken htaken, fun other hother => ?_⟩
    rw [← hother] at htaken
    refine ⟨⟨machine, _, other.extend additions.all⟩, ?_, rfl, staged_of_taken htaken⟩
    rw [run_eq_taken, htaken]
    rfl

/-- A report that shows only that an earlier run ended with an error. -/
def reportOfFailedRun : Report :=
  ⟨[], false, true⟩

theorem source_is_taken_in_stages_negation :
    ∃ session additions, run 4 (fun _ => 0) .unlimited "-nil;" reportOfFailedRun = some session ∧
      Staged 4 (fun _ => 0) .unlimited "-nil;" reportOfFailedRun additions session ∧
        session.report.hadError = false ∧
          additions.running = [.runtime "Operand must be a number." ⟨.symbol .minus, "-", 1⟩] := by
  obtain ⟨session, hrun⟩ : ∃ session,
      run 4 (fun _ => 0) .unlimited "-nil;" reportOfFailedRun = some session := ⟨_, rfl⟩
  obtain ⟨additions, hstaged, -⟩ := (source_is_taken_in_stages 4 (fun _ => 0) .unlimited "-nil;"
    reportOfFailedRun).2 session hrun
  have hclean : session.report.hadError = false := by
    cases hrun
    rfl
  refine ⟨session, additions, hrun, hstaged, hclean, (hstaged.ran hclean).2.trans ?_⟩
  rfl

end Lox
