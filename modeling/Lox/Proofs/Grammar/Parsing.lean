import Lox.Proofs.Grammar.Completeness
import Lox.Proofs.Grammar.Nearest
import Lox.Proofs.Grammar.Soundness

/-!
# The parser accepts its grammar

A program is read without errors if and only if its tokens before the first end marker are in the
grammar, and then its tree is the one that the grammar gives them.
-/

namespace Lox.Grammar

theorem endMarker_category (tokens : List Token) : (endMarker tokens).category = .eof := by
  unfold endMarker
  cases h : tokens.find? (·.category = .eof) with
  | none => rfl
  | some token => simpa using List.find?_some h

theorem Rule.read_declaration_takes {setting : Setting} {before after : State}
    {statement : Option Stmt} (hrest : before.rest ≠ [])
    (h : result (read .declaration) setting before = .ok statement after) :
    after.rest.length < before.rest.length := by
  rw [result_read] at h
  exact run_declaration_takes hrest h

/-- Faults inside a declaration are noted there, so that it always gives a result. -/
theorem Rule.read_declaration_ok {setting : Setting} (hending : setting.ending.category = .eof)
    (before : State) :
    ∃ statement after, result (read .declaration) setting before = .ok statement after := by
  have heq := read_eq hending .declaration before
  have hfueled := read_fueled hending .declaration before
  change _ = result (Grammar.declaration read) setting before at heq
  rw [heq] at hfueled ⊢
  rw [Grammar.declaration, result_tryCatch] at hfueled ⊢
  cases hplain : result (some <$> plainDeclaration read) setting before with
  | ok statement after => exact ⟨statement, after, rfl⟩
  | error halt after =>
      cases halt with
      | fault error => exact ⟨none, (after.noted error).synchronized, by
          change result (do note error; synchronize; return none) setting after = _
          rw [bind_of_ok (result_note error), bind_of_ok result_synchronize, result_pure]⟩
      | outOfFuel => exact absurd (by rw [hplain]; rfl) (hfueled after)

/-- The declarations of a program or block are always read to the end. -/
theorem Rule.read_declarations_ok {setting : Setting} (hending : setting.ending.category = .eof)
    (inBlock : Bool) (before : State) :
    ∃ statements after,
      result (read (.declarations inBlock)) setting before = .ok statements after := by
  induction hlength : before.rest.length using Nat.strongRecOn generalizing before with
  | ind length ih =>
      rw [read_eq hending]
      change ∃ statements after, result (Grammar.declarations read inBlock) setting before = _
      rw [Grammar.declarations, bind_of_ok (result_sees _), bind_of_ok result_atEnd]
      split
      · exact ⟨[], before, rfl⟩
      · next hmore =>
          have hrest : before.rest ≠ [] := by
            intro hnil
            simp [hnil] at hmore
          obtain ⟨first, middle, hfirst⟩ := read_declaration_ok hending before
          have hlt := read_declaration_takes hrest hfirst
          obtain ⟨rest, after, hafter⟩ := ih middle.rest.length (by omega) middle rfl
          exact ⟨first.toList ++ rest, after, by rw [bind_of_ok hfirst, bind_of_ok hafter]; rfl⟩

/-- A program read from a cursor, as reading by the rule for declarations. -/
theorem readProgram_eq {setting : Setting} {start after : State} {statements : List Stmt}
    (h : result (Rule.read (.declarations false)) setting start = .ok statements after) :
    readProgram setting start = ⟨statements, after.errors, after.nextId⟩ := by
  rw [Rule.result_read] at h
  rw [readProgram]
  simp only [result] at h
  rw [h]

/-- What is read without errors is derived. -/
theorem parse_derives {tokens : List Token} {nextId : NodeId}
    (h : (parse tokens nextId).errors = []) :
    Derives true .declarations (tokens.takeWhile (·.category ≠ .eof))
      (Stmt.eraseAll (parse tokens nextId).statements) := by
  have hending : (Setting.standard tokens).ending.category = .eof := endMarker_category tokens
  obtain ⟨statements, after, hread⟩ :=
    Rule.read_declarations_ok hending false (.start tokens nextId)
  have hparse : parse tokens nextId = ⟨statements, after.errors, after.nextId⟩ :=
    readProgram_eq hread
  rw [hparse] at h ⊢
  rw [Rule.result_read] at hread
  obtain ⟨read, hrest, hderives, hend⟩ := Rule.run_sound hending rfl _ _ _ _ _ hread h
  rw [hend rfl, List.append_nil] at hrest
  change tokens.takeWhile (·.category ≠ .eof) = read at hrest
  rwa [hrest]

/-- What is derived is read without errors. -/
theorem parse_of_derives {tokens : List Token} {trees : List Stmt}
    (h : Derives true .declarations (tokens.takeWhile (·.category ≠ .eof)) trees)
    (nextId : NodeId) :
    (parse tokens nextId).errors = [] ∧
      Stmt.eraseAll (parse tokens nextId).statements = trees := by
  have hending : (Setting.standard tokens).ending.category = .eof := endMarker_category tokens
  obtain ⟨statements, after, hread⟩ :=
    Rule.read_declarations_ok hending false (.start tokens nextId)
  obtain ⟨read, last, hgives, -, herrors, htrees⟩ :=
    h.reads hending rfl false (.start tokens nextId) [] (by simp [State.start]) (.inl rfl)
  have hparse : parse tokens nextId = ⟨statements, after.errors, after.nextId⟩ :=
    readProgram_eq hread
  rw [hread] at hgives
  cases hgives
  rw [hparse]
  exact ⟨herrors, htrees⟩

/-- The parser records no error if and only if the tokens before the first end marker are in the
grammar, with at most eight entries in every list of parameters or arguments. Then the statements
are, up to identities, exactly those of the derivation that attaches each `else` to the nearest
open `if`. -/
theorem parse_accepts_grammar (tokens : List Token) (nextId : NodeId) :
    ((parse tokens nextId).errors = [] ↔
      ∃ trees, Derives false .declarations (tokens.takeWhile (·.category ≠ .eof)) trees) ∧
    ((parse tokens nextId).errors = [] → ∀ trees,
      Derives true .declarations (tokens.takeWhile (·.category ≠ .eof)) trees ↔
        trees = Stmt.eraseAll (parse tokens nextId).statements) := by
  refine ⟨⟨fun hnil => ⟨_, (parse_derives hnil).ambiguous⟩, fun ⟨trees, hderives⟩ => ?_⟩,
    fun hnil trees => ⟨fun hderives => (parse_of_derives hderives nextId).2.symm,
      fun htrees => ?_⟩⟩
  · obtain ⟨nearest, hnearest⟩ := hderives.nearest
    exact (parse_of_derives hnearest nextId).1
  · rw [htrees]
    exact parse_derives hnil

end Lox.Grammar
