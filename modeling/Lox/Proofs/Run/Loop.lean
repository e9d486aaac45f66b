import Lox.Proofs.Grammar.Loop
import Lox.Proofs.Run.Renumbering

/-!
# Loops run as they are written out

A `for` loop and the `while` loop that it is written out as are read as the same tree, and so they
break the same rules of scope, their names have the same distances, and they do the same when run.
-/

namespace Lox.Run

open Grammar (Clauses ForMarks WhileMarks parse)

/-- Programs that are read without errors, as the same tree, differ in identities only. -/
theorem renumbered_of_derives {tokens tokens' : List Token} {trees : List Stmt}
    (h : Grammar.Derives true .declarations (tokens.takeWhile (·.category ≠ .eof)) trees)
    (h' : Grammar.Derives true .declarations (tokens'.takeWhile (·.category ≠ .eof)) trees)
    (nextId nextId' : NodeId) : Renumbered (parse tokens nextId) (parse tokens' nextId') := by
  obtain ⟨herrors, htrees⟩ := Grammar.parse_of_derives h nextId
  obtain ⟨herrors', htrees'⟩ := Grammar.parse_of_derives h' nextId'
  exact renumbered_of_copy (herrors'.trans herrors.symm) (htrees'.trans htrees.symm)

/-- A `for` loop is read without errors and as the tree that it is written out to with `while`: both
have the same static errors and distances, and do the same on machines abreast of each other. -/
theorem for_is_while {clauses : Clauses} (h : clauses.Readable) (marks : ForMarks)
    (marks' : WhileMarks) {loop spelled : List Token}
    (hloop : loop.takeWhile (·.category ≠ .eof) = clauses.asFor marks)
    (hspelled : spelled.takeWhile (·.category ≠ .eof) = clauses.asWhile marks')
    (nextId nextId' : NodeId) :
    let program := parse loop nextId
    let program' := parse spelled nextId'
    program.errors = [] ∧ Renumbered program program' ∧
      ∀ machine machine', Abreast nextId nextId' machine machine' → ∀ fuel,
        SameEnd (fun after after' => after'.output = after.output ∧
            after.TwinBefore program.nextId program'.nextId after')
          (Run.interpret fuel program.statements (Scope.resolve program.statements).1 machine)
          (Run.interpret fuel program'.statements (Scope.resolve program'.statements).1 machine') := by
  intro program program'
  have hopen : ∀ token ∈ clauses.asFor marks, token.category ≠ .eof := by
    intro token htoken
    rw [← hloop] at htoken
    simpa using List.mem_takeWhile_imp htoken
  obtain ⟨trees⟩ := h.trees marks hopen
  have hderives := trees.asFor_derives marks
  have hderives' := trees.asWhile_derives marks'
  rw [← hloop] at hderives
  rw [← hspelled] at hderives'
  have hsame : Renumbered program program' :=
    renumbered_of_derives hderives hderives' nextId nextId'
  refine ⟨(Grammar.parse_of_derives hderives nextId).1, hsame, ?_⟩
  intro machine machine' habreast fuel
  have hend := habreast.sameEnd hsame (Grammar.parse_fresh loop nextId)
    (Grammar.parse_fresh spelled nextId') fuel
  exact hend.imp fun htwin => ⟨htwin.output, htwin⟩

/-- The clauses of a loop that goes around once. -/
def onceAround : Clauses where
  initializer := some [⟨.keyword .var_, "var", 1⟩, ⟨.identifier, "i", 1⟩, ⟨.symbol .equal, "=", 1⟩,
    ⟨.keyword .true_, "true", 1⟩, ⟨.symbol .semicolon, ";", 1⟩]
  condition := some [⟨.identifier, "i", 1⟩]
  increment := some [⟨.identifier, "i", 1⟩, ⟨.symbol .equal, "=", 1⟩, ⟨.keyword .false_, "false", 1⟩]
  body := [⟨.keyword .print_, "print", 1⟩, ⟨.identifier, "i", 1⟩, ⟨.symbol .semicolon, ";", 1⟩]

def onceFor : ForMarks where
  for_ := ⟨⟨.keyword .for_, "for", 1⟩, rfl⟩
  left := ⟨⟨.symbol .leftParen, "(", 1⟩, rfl⟩
  first := ⟨⟨.symbol .semicolon, ";", 1⟩, rfl⟩
  second := ⟨⟨.symbol .semicolon, ";", 1⟩, rfl⟩
  right := ⟨⟨.symbol .rightParen, ")", 1⟩, rfl⟩

def onceWhile : WhileMarks where
  outerLeft := ⟨⟨.symbol .leftBrace, "\x7b", 1⟩, rfl⟩
  while_ := ⟨⟨.keyword .while_, "while", 1⟩, rfl⟩
  left := ⟨⟨.symbol .leftParen, "(", 1⟩, rfl⟩
  true_ := ⟨⟨.keyword .true_, "true", 1⟩, rfl⟩
  right := ⟨⟨.symbol .rightParen, ")", 1⟩, rfl⟩
  innerLeft := ⟨⟨.symbol .leftBrace, "\x7b", 1⟩, rfl⟩
  semicolon := ⟨⟨.symbol .semicolon, ";", 1⟩, rfl⟩
  innerRight := ⟨⟨.symbol .rightBrace, "\x7d", 1⟩, rfl⟩
  outerRight := ⟨⟨.symbol .rightBrace, "\x7d", 1⟩, rfl⟩

theorem onceAround_readable : onceAround.Readable where
  initializer := by
    rintro tokens ⟨⟩
    exact ⟨0, _, rfl, rfl, trivial⟩
  condition := by
    rintro tokens ⟨⟩
    exact ⟨0, _, _, rfl, rfl, rfl⟩
  increment := by
    rintro tokens ⟨⟩
    exact ⟨0, _, _, rfl, rfl, rfl⟩
  body := ⟨0, _, rfl, rfl, rfl⟩

theorem for_is_while_once :
    let loop := tokens "for (var i = true; i; i = false) print i;"
    let spelled := tokens "\x7bvar i = true; while (i) \x7bprint i; i = false;\x7d\x7d"
    let machine := Machine.start (fun _ => 0) .unlimited
    loop.takeWhile (·.category ≠ .eof) = onceAround.asFor onceFor ∧
      spelled.takeWhile (·.category ≠ .eof) = onceAround.asWhile onceWhile ∧
        Renumbered (parse loop 0) (parse spelled 0) ∧
          SameEnd (fun after after' => after'.output = after.output)
            (Run.interpret 20 (parse loop 0).statements
              (Scope.resolve (parse loop 0).statements).1 machine)
            (Run.interpret 20 (parse spelled 0).statements
              (Scope.resolve (parse spelled 0).statements).1 machine) := by
  intro loop spelled machine
  have hloop : loop.takeWhile (·.category ≠ .eof) = onceAround.asFor onceFor := by rfl
  have hspelled : spelled.takeWhile (·.category ≠ .eof) = onceAround.asWhile onceWhile := by rfl
  obtain ⟨-, hsame, hruns⟩ :=
    for_is_while onceAround_readable onceFor onceWhile hloop hspelled 0 0
  have habreast : Abreast 0 0 machine machine := .start (fun _ => 0) .unlimited 0 0
  exact ⟨hloop, hspelled, hsame, (hruns machine machine habreast 20).imp fun hafter => hafter.1⟩

end Lox.Run
