import Lox.Proofs.Run.Contract
import Lox.Session

/-!
# The stages of a source

A source that is taken in is scanned and read; its names are matched if the report shows no static
error by then, and its program is run if it shows none after that either. `Session.pass_eq` says so
in one equation, from which everything else about sessions follows.
-/

namespace Lox

/-! ## Reports -/

namespace Report

variable (report : Report) (diagnostics : List Diagnostic)

@[simp] theorem held_extend : (report.extend diagnostics).held = report.held ++ diagnostics := by
  induction diagnostics generalizing report with
  | nil => simp [extend]
  | cons first rest ih =>
      have hrest := ih (report.add first)
      simp only [extend, List.foldl_cons] at hrest ⊢
      rw [hrest, add, List.append_assoc, List.singleton_append]

@[simp] theorem hadError_extend : (report.extend diagnostics).hadError =
    (report.hadError || diagnostics.any Diagnostic.isStatic) := by
  induction diagnostics generalizing report with
  | nil => simp [extend]
  | cons first rest ih =>
      have hrest := ih (report.add first)
      simp only [extend, List.foldl_cons, List.any_cons] at hrest ⊢
      rw [hrest, add, Bool.or_assoc]

@[simp] theorem hadRuntimeError_extend : (report.extend diagnostics).hadRuntimeError =
    (report.hadRuntimeError || diagnostics.any (!·.isStatic)) := by
  induction diagnostics generalizing report with
  | nil => simp [extend]
  | cons first rest ih =>
      have hrest := ih (report.add first)
      simp only [extend, List.foldl_cons, List.any_cons] at hrest ⊢
      rw [hrest, add, Bool.or_assoc]

theorem extend_append (more : List Diagnostic) :
    report.extend (diagnostics ++ more) = (report.extend diagnostics).extend more :=
  List.foldl_append

end Report

/-- Diagnostics that are all static mark a report as soon as there are any. -/
theorem any_isStatic {diagnostics : List Diagnostic} (h : ∀ d ∈ diagnostics, d.isStatic = true) :
    diagnostics.any Diagnostic.isStatic = !diagnostics.isEmpty := by
  cases diagnostics with
  | nil => rfl
  | cons first rest => simp [h]

/-! ## How a run ends -/

namespace Run.Outcome

variable {α : Type}

/-- Whether the fuel has sufficed. -/
def ended : Outcome α → Bool
  | .error .outOfFuel _ => false
  | _ => true

/-- What is reported of the end of a run. -/
def diagnostics : Outcome α → List Diagnostic
  | .error (.fault error) _ => [.ofRuntime error]
  | .error (.refused message) _ => [.output message]
  | _ => []

/-- At most one diagnostic is reported, and none that is static. -/
theorem diagnostics_running (outcome : Outcome α) :
    outcome.diagnostics.length ≤ 1 ∧ ∀ d ∈ outcome.diagnostics, d.isStatic = false := by
  cases outcome with
  | ok a machine => simp [diagnostics]
  | error interrupt machine =>
      cases interrupt <;> simp [diagnostics, Diagnostic.ofRuntime, Diagnostic.isStatic]

end Run.Outcome

/-! ## Stages -/

/-- The errors of a source that is read as this program, up to syntax errors. -/
def readingErrors (source : String) (program : Grammar.Program) : List Diagnostic :=
  (lexicalErrors source).map .ofLexical ++ program.errors.map .ofSyntax

/-- The static rules that a program breaks. -/
def matchingErrors (program : List Stmt) : List Diagnostic :=
  (Scope.resolve program).2.map .ofScope

/-- Whether the text of a source or its program breaks a rule. -/
def HasStaticError (source : String) : Prop :=
  let program := Grammar.parse (tokens source) 0
  lexicalErrors source ≠ [] ∨ program.errors ≠ [] ∨ (Scope.resolve program.statements).2 ≠ []

@[simp] theorem readingErrors_eq_nil (source : String) (program : Grammar.Program) :
    readingErrors source program = [] ↔ lexicalErrors source = [] ∧ program.errors = [] := by
  simp [readingErrors]

@[simp] theorem matchingErrors_eq_nil (program : List Stmt) :
    matchingErrors program = [] ↔ (Scope.resolve program).2 = [] := by
  simp [matchingErrors]

theorem isStatic_readingErrors (source : String) (program : Grammar.Program) :
    ∀ d ∈ readingErrors source program, d.isStatic = true := by
  intro d hd
  rcases List.mem_append.mp hd with hd | hd <;> obtain ⟨error, -, rfl⟩ := List.mem_map.mp hd <;> rfl

theorem isStatic_matchingErrors (program : List Stmt) :
    ∀ d ∈ matchingErrors program, d.isStatic = true := by
  intro d hd
  obtain ⟨error, -, rfl⟩ := List.mem_map.mp hd
  rfl

namespace Session

variable (session : Session) (fuel : Nat) (source : String)

/-- Takes in a source: scans it, and runs its program if the report shows no static error. -/
def pass : Option Session :=
  (session.scan source).2.submit fuel (session.scan source).1

/-- What a source is read as. -/
def reading : Grammar.Program :=
  Grammar.parse (tokens source) session.nextId

/-- The session after a source has been read, with further diagnostics. -/
def noted (diagnostics : List Diagnostic) : Session :=
  { session with
    nextId := (session.reading source).nextId
    report := session.report.extend diagnostics }

/-- The session after the program of a source has been run. -/
def settled (outcome : Run.Outcome Unit) : Session :=
  { session.noted source outcome.diagnostics with machine := outcome.machine }

/-- The run of the program of a source, which follows those that the machine has run. -/
def outcome : Run.Outcome Unit :=
  Run.interpret fuel (session.reading source).statements
    (Scope.resolve (session.reading source).statements).1 session.machine

/-- What is reported of the end of a run goes to the report, if the fuel has sufficed. -/
theorem interpret_eq (program : List Stmt) (distances : Scope.Distances) :
    session.interpret fuel program distances =
      let outcome : Run.Outcome Unit := Run.interpret fuel program distances session.machine
      if outcome.ended then
        some { session with
          machine := outcome.machine
          report := session.report.extend outcome.diagnostics }
      else none := by
  simp only [interpret, perform]
  cases Run.interpret fuel program distances session.machine with
  | ok result after => rfl
  | error interrupt after => cases interrupt <;> rfl

/-- A source is read, its names are matched and its program is run, each only if the report shows no
static error so far. -/
theorem pass_eq : session.pass fuel source =
    let program := session.reading source
    let reading := readingErrors source program
    let matching := matchingErrors program.statements
    if session.report.hadError || !reading.isEmpty then some (session.noted source reading)
    else if !matching.isEmpty then some (session.noted source matching)
    else if (session.outcome fuel source).ended then
      some (session.settled source (session.outcome fuel source))
    else none := by
  let program := session.reading source
  have hsubmit : session.pass fuel source =
      let read := session.noted source (readingErrors source program)
      if read.report.hadError then some read
      else
        let matched := { read with report := read.report.extend (matchingErrors program.statements) }
        if matched.report.hadError then some matched
        else matched.interpret fuel program.statements (Scope.resolve program.statements).1 := by
    simp only [noted, readingErrors, Report.extend_append]
    rfl
  have hreading := any_isStatic (isStatic_readingErrors source program)
  have hmatching := any_isStatic (isStatic_matchingErrors program.statements)
  rw [hsubmit]
  change _ = if session.report.hadError || !(readingErrors source program).isEmpty then _
    else if !(matchingErrors program.statements).isEmpty then _ else _
  simp only [noted, Report.hadError_extend, hreading, hmatching]
  cases hbefore : session.report.hadError with
  | true => rfl
  | false =>
      cases readingErrors source program with
      | cons first rest => rfl
      | nil =>
          cases matchingErrors program.statements with
          | cons first rest => rfl
          | nil =>
              simp only [interpret_eq]
              rfl

end Session

/-- A source that is run on a new machine is taken in by a new session. -/
theorem run_eq_pass (fuel : Nat) (clock : Nat → Float) (sink : Run.Sink) (source : String)
    (report : Report) :
    run fuel clock sink source report = (Session.start clock sink report).pass fuel source :=
  rfl

end Lox
