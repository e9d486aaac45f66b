import Lox.Proofs.Grammar.Ending

/-!
# Progress and recovery

Reading a declaration always comes to a result, and the cursor is then further on in the token
list: past the declaration if it was understood, and otherwise at the next boundary behind the
fault. So the loops over declarations and methods end, wherever in a token list they begin and
whatever it holds.
-/

namespace Lox.Grammar

variable {tokens : List Token} {setting : Setting} {before after : State}

/-! ## One declaration -/

theorem Advance.position_lt (h : Advance before after)
    (hlt : after.rest.length < before.rest.length) : before.position < after.position := by
  obtain ⟨front, hfront, hposition⟩ := h.read
  rw [hfront, List.length_append] at hlt
  omega

/-- How a declaration comes to its result. Either it is understood, or it is given up at a fault,
which is noted, and recovery goes on from there to the first boundary behind it, but not past the
end. -/
inductive DeclarationRead (tokens : List Token) (setting : Setting) (before : State) :
    Option Stmt → State → Prop
  | understood {tree : Stmt} {after : State}
      (hread : result (plainDeclaration Rule.read) setting before = .ok tree after) :
      DeclarationRead tokens setting before (some tree) after
  | givenUp {error : SyntaxError} {fault after : State}
      (hread : result (plainDeclaration Rule.read) setting before = .error (.fault error) fault)
      (hle : before.position ≤ fault.position)
      (hsynchronize : result synchronize setting (fault.noted error) = .ok () after)
      (hplace : ((tokenAt tokens default fault.position).category = .eof ∧
          after.position = fault.position) ∨
        NextBoundary tokens fault.position after.position) :
      DeclarationRead tokens setting before none after

namespace Rule

/-- Reading a declaration gives a result: the tree, or none after recovery from a fault. -/
theorem read_declaration_cases (hending : setting.ending.category = .eof)
    (hfaces : Faces tokens before) :
    ∃ statement after, result (read .declaration) setting before = .ok statement after ∧
      DeclarationRead tokens setting before statement after := by
  have heq := read_eq hending .declaration before
  have hfueled := read_fueled hending .declaration before
  change _ = result (Grammar.declaration read) setting before at heq
  rw [heq] at hfueled ⊢
  rw [Grammar.declaration, result_tryCatch] at hfueled ⊢
  have hadvances := Advances.congruence.plainDeclaration read read_advances setting before
  rw [map_eq_bind] at hfueled ⊢
  cases hplain : result (plainDeclaration read) setting before with
  | ok tree after =>
      rw [bind_of_ok hplain]
      exact ⟨some tree, after, rfl, .understood hplain⟩
  | error halt fault =>
      rw [bind_of_error hplain] at hfueled ⊢
      rw [hplain] at hadvances
      cases halt with
      | outOfFuel => exact absurd rfl (hfueled fault)
      | fault error =>
          have hfault := hfaces.advance (hadvances.trans (Advance.noted fault error))
          refine ⟨none, (fault.noted error).synchronized, ?_,
            .givenUp hplain hadvances.position_le result_synchronize ?_⟩
          · change result (do note error; synchronize; return none) setting fault = _
            rw [bind_of_ok (result_note error), bind_of_ok result_synchronize, result_pure]
          · exact hfault.synchronized.imp_left (And.imp_right fun hstays => by rw [hstays]; rfl)

/-! ## Loops over declarations and methods -/

/-- The declarations of a program are read up to the end, those of a block up to a closing brace or
the end. -/
theorem read_declarations_stops (hending : setting.ending.category = .eof) (inBlock : Bool)
    {statements : List Stmt}
    (h : result (read (.declarations inBlock)) setting before = .ok statements after) :
    after.rest = [] ∨ inBlock = true ∧ after.next? = some (.symbol .rightBrace) := by
  induction hlength : before.rest.length using Nat.strongRecOn generalizing before statements with
  | ind length ih =>
      rw [read_eq hending] at h
      change result (Grammar.declarations read inBlock) setting before = _ at h
      rw [Grammar.declarations, bind_of_ok (result_sees _), bind_of_ok result_atEnd] at h
      split at h
      · next hstop =>
          cases h
          simpa [or_comm] using hstop
      · next hmore =>
          have hrest : before.rest ≠ [] := by
            intro hnil
            simp [hnil] at hmore
          obtain ⟨first, middle, hfirst, h⟩ := bind_eq_ok.mp h
          obtain ⟨rest, last, hrest', h⟩ := bind_eq_ok.mp h
          cases h
          have hlt := read_declaration_takes hrest hfirst
          exact ih middle.rest.length (by omega) hrest' rfl

/-- The methods of a class are read up to a closing brace or the end, unless one of them is given
up. -/
theorem read_methods_stops (hending : setting.ending.category = .eof) (before : State) :
    (∃ methods after, result (read .methods) setting before = .ok methods after ∧
      (after.rest = [] ∨ after.next? = some (.symbol .rightBrace))) ∨
    ∃ error fault, result (read .methods) setting before = .error (.fault error) fault := by
  induction hlength : before.rest.length using Nat.strongRecOn generalizing before with
  | ind length ih =>
      have hfueled := read_fueled hending .methods before
      rw [read_eq hending] at hfueled ⊢
      change ∀ after, result (Grammar.methods read) setting before ≠ _ at hfueled
      change (∃ methods after, result (Grammar.methods read) setting before = _ ∧ _) ∨
        ∃ error fault, result (Grammar.methods read) setting before = _
      rw [Grammar.methods, bind_of_ok (result_sees _), bind_of_ok result_atEnd] at hfueled ⊢
      split at hfueled
      · next hstop =>
          rw [if_pos hstop]
          exact .inl ⟨[], before, rfl, by simpa [or_comm] using hstop⟩
      · next hmore =>
          rw [if_neg hmore]
          cases hmethod : result (function read .method) setting before with
          | ok method middle =>
              rw [bind_of_ok hmethod]
              have hlt := function_consumes read_advances .method _ _ _ _ hmethod
              obtain ⟨rest, after, hrest, hstop⟩ | ⟨error, fault, hrest⟩ :=
                ih middle.rest.length (by omega) middle rfl
              · exact .inl ⟨method :: rest, after, by rw [bind_of_ok hrest]; rfl, hstop⟩
              · exact .inr ⟨error, fault, bind_of_error hrest⟩
          | error halt fault =>
              rw [bind_of_error hmethod] at hfueled ⊢
              cases halt with
              | outOfFuel => exact absurd rfl (hfueled fault)
              | fault error => exact .inr ⟨error, fault, rfl⟩

/-- Reading by a rule takes a bounded number of references to rules: sixteen for each token that is
left, and sixteen more. Then it is the same as reading by the rule's definition without a bound, and
it comes to a tree or a fault. -/
structure Bounded (setting : Setting) (before : State) (rule : Rule) : Prop where
  run : ∀ fuel, 16 * (before.rest.length + 1) ≤ fuel →
    result (Rule.run fuel rule) setting before = result (read rule) setting before
  step : result (read rule) setting before = result (rule.step read) setting before
  ends : ∀ after, result (read rule) setting before ≠ .error .outOfFuel after

theorem bounded (hending : setting.ending.category = .eof) (before : State) (rule : Rule) :
    Bounded setting before rule where
  run _ hfuel := (run_agrees_read hending rule
    (Nat.le_trans (need_le_fuelFor rule before.rest.length) hfuel)).eq
  step := read_eq hending rule before
  ends := read_fueled hending rule before

end Rule

theorem Faces.next?_eq_some (h : Faces tokens before) {category : Category}
    (hnext : before.next? = some category) :
    (tokenAt tokens default before.position).category = category := by
  obtain ⟨token, rest, hrest, rfl⟩ := State.next?_eq_some hnext
  rw [tokenAt, (h.of_cons hrest).1]
  rfl

/-- From any place of a token list that is not its end, a declaration is read to a result and the
cursor is then further on. If the declaration was given up, recovery has gone from the fault to the
first place behind it where the list ends, a semicolon is right before or a statement begins; a
fault at the end is left where it is. So the declarations of a program are read up to the end, those
of a block up to a closing brace or the end, and the methods of a class up to there or to a fault,
all with a number of references to rules that grows with the number of tokens only. -/
theorem declarations_progress_and_recover (tokens : List Token) (setting : Setting)
    (before : State) (hending : setting.ending.category = .eof) (hfaces : Faces tokens before) :
    ((tokenAt tokens default before.position).category ≠ .eof →
      ∃ statement after, result (Rule.read .declaration) setting before = .ok statement after ∧
        before.position < after.position ∧ Faces tokens after ∧
        DeclarationRead tokens setting before statement after) ∧
    (∀ inBlock, ∃ statements after,
      result (Rule.read (.declarations inBlock)) setting before = .ok statements after ∧
        Faces tokens after ∧ ((tokenAt tokens default after.position).category = .eof ∨
          inBlock = true ∧
            (tokenAt tokens default after.position).category = .symbol .rightBrace)) ∧
    ((∃ methods after, result (Rule.read .methods) setting before = .ok methods after ∧
        Faces tokens after ∧ ((tokenAt tokens default after.position).category = .eof ∨
          (tokenAt tokens default after.position).category = .symbol .rightBrace)) ∨
      ∃ error fault, result (Rule.read .methods) setting before = .error (.fault error) fault ∧
        Faces tokens fault) ∧
    ∀ rule, Rule.Bounded setting before rule := by
  refine ⟨fun hopen => ?_, fun inBlock => ?_, ?_, Rule.bounded hending before⟩
  · obtain ⟨statement, after, hread, hcases⟩ := Rule.read_declaration_cases hending hfaces
    have hadvance := (Rule.read_advances .declaration).of_ok hread
    have hlt := Rule.read_declaration_takes (mt hfaces.rest_eq_nil_iff.mp hopen) hread
    exact ⟨statement, after, hread, hadvance.position_lt hlt, hfaces.advance hadvance, hcases⟩
  · obtain ⟨statements, after, hread⟩ := Rule.read_declarations_ok hending inBlock before
    have hafter := hfaces.advance ((Rule.read_advances _).of_ok hread)
    exact ⟨statements, after, hread, hafter,
      (Rule.read_declarations_stops hending inBlock hread).imp hafter.rest_eq_nil_iff.mp
        (And.imp_right hafter.next?_eq_some)⟩
  · obtain ⟨methods, after, hread, hstop⟩ | ⟨error, fault, hread⟩ :=
      Rule.read_methods_stops hending before
    · have hafter := hfaces.advance ((Rule.read_advances _).of_ok hread)
      exact .inl ⟨methods, after, hread, hafter,
        hstop.imp hafter.rest_eq_nil_iff.mp hafter.next?_eq_some⟩
    · exact .inr ⟨error, fault, hread, hfaces.advance ((Rule.read_advances _).of_error hread)⟩

/-- Neither the parenthesis nor the `else` begins a statement. -/
def strayTokens : List Token :=
  [⟨.symbol .rightParen, ")", 1⟩, ⟨.keyword .else_, "else", 1⟩, ⟨.keyword .print_, "print", 1⟩]

theorem declarations_progress_and_recover_stray :
    (Setting.standard strayTokens).ending.category = .eof ∧
    Faces strayTokens (.start strayTokens 0) ∧
    (tokenAt strayTokens default 0).category ≠ .eof ∧
    ∃ statement after,
      result (Rule.read .declaration) (.standard strayTokens) (.start strayTokens 0) =
        .ok statement after ∧
      0 < after.position ∧ Faces strayTokens after ∧
      DeclarationRead strayTokens (.standard strayTokens) (.start strayTokens 0) statement after :=
  ⟨rfl, rfl, by decide, (declarations_progress_and_recover strayTokens (.standard strayTokens)
    (.start strayTokens 0) rfl rfl).1 (by decide)⟩

end Lox.Grammar
