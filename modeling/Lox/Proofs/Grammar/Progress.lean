import Lox.Proofs.Grammar.Advance

/-!
# Statements take tokens

A statement that is understood takes at least one token, and a declaration takes one even if it is
not understood, since recovery passes over the token at the fault. So the loops over declarations
and methods come to an end.
-/

namespace Lox.Grammar

variable {α β : Type} {setting : Setting} {before after : State}

theorem State.length_skipped_lt {state : State} {category : Category}
    (h : state.next? = some category) : state.skipped.rest.length < state.rest.length := by
  obtain ⟨token, rest, hrest, -⟩ := State.next?_eq_some h
  simp [hrest]

/-- The parser takes at least one token whenever it does not give up. -/
def Consumes (parser : Parser α) : Prop :=
  ∀ setting before a after, result parser setting before = .ok a after →
    after.rest.length < before.rest.length

namespace Consumes

theorem bind_left {first : Parser α} {second : α → Parser β} (hfirst : Consumes first)
    (hsecond : ∀ a, Advances (second a)) : Consumes (first >>= second) := by
  intro setting before b after h
  obtain ⟨a, middle, h₁, h₂⟩ := bind_eq_ok.mp h
  exact Nat.lt_of_le_of_lt ((hsecond a).of_ok h₂).length_le (hfirst _ _ _ _ h₁)

theorem bind_right {first : Parser α} {second : α → Parser β} (hfirst : Advances first)
    (hsecond : ∀ a, Consumes (second a)) : Consumes (first >>= second) := by
  intro setting before b after h
  obtain ⟨a, middle, h₁, h₂⟩ := bind_eq_ok.mp h
  exact Nat.lt_of_lt_of_le (hsecond a _ _ _ _ h₂) (hfirst.of_ok h₁).length_le

theorem map {parser : Parser α} (f : α → β) (h : Consumes parser) : Consumes (f <$> parser) := by
  rw [map_eq_bind]
  exact h.bind_left fun a => Advances.pure (f a)

theorem expect (category : Category) (fault : SyntaxFault) :
    Consumes (Grammar.expect category fault) := by
  intro setting before token after h
  by_cases hnext : before.next? = some category
  · rw [result_expect_of_next hnext] at h
    cases h
    exact State.length_skipped_lt hnext
  · rw [result_expect_of_not hnext] at h
    cases h

/-- Taking a token of a category and going on, or else doing something that takes a token. -/
theorem accepts_ite {category : Category} {yes no : Parser α} (hyes : Advances yes)
    (hno : Consumes no) :
    Consumes (accepts category >>= fun accepted => if accepted = true then yes else no) := by
  intro setting before a after h
  by_cases hnext : before.next? = some category
  · rw [accepts_ite_of_next hnext] at h
    exact Nat.lt_of_le_of_lt (hyes.of_ok h).length_le (State.length_skipped_lt hnext)
  · rw [accepts_ite_of_not hnext] at h
    exact hno _ _ _ _ h

end Consumes

/-! ## Statements and declarations -/

section

variable {sub : Readers} (hsub : ∀ rule, Advances (sub rule))

include hsub

theorem function_consumes (form : FunctionForm) : Consumes (function sub form) := by
  refine (Consumes.expect _ _).bind_left fun _ => (Advances.expect _ _).bind fun _ => ?_
  refine (Advances.congruence.parameterList sub hsub).bind fun _ => (Advances.expect _ _).bind fun _ =>
    (Advances.expect _ _).bind fun _ => ?_
  exact (Advances.congruence.block sub hsub).bind fun _ => Advances.pure _

theorem expressionStatement_consumes : Consumes (expressionStatement sub) :=
  Consumes.bind_right (hsub .expression) fun _ =>
    (Consumes.expect _ _).bind_left fun _ => Advances.pure _

theorem statement_consumes : Consumes (statement sub) := by
  refine Consumes.bind_right Advances.peek fun keyword => ?_
  refine Consumes.accepts_ite (Advances.congruence.forStatement sub hsub) ?_
  refine Consumes.accepts_ite (Advances.congruence.ifStatement sub hsub) ?_
  refine Consumes.accepts_ite (Advances.congruence.printStatement sub hsub) ?_
  refine Consumes.accepts_ite (Advances.congruence.returnStatement sub hsub _) ?_
  refine Consumes.accepts_ite (Advances.congruence.whileStatement sub hsub) ?_
  refine Consumes.accepts_ite ?_ (expressionStatement_consumes hsub)
  exact (Advances.congruence.block sub hsub).bind fun _ => Advances.pure _

theorem plainDeclaration_consumes (hstatement : Consumes (sub .statement)) :
    Consumes (plainDeclaration sub) := by
  refine Consumes.accepts_ite (Advances.congruence.classDeclaration sub hsub) ?_
  refine Consumes.accepts_ite ?_ ?_
  · exact (Advances.congruence.function sub hsub .function).bind fun _ => Advances.pure _
  · exact Consumes.accepts_ite (Advances.congruence.varDeclaration sub hsub) hstatement

omit hsub in
theorem State.length_synchronized_lt {state : State} (h : state.rest ≠ []) :
    state.synchronized.rest.length < state.rest.length := by
  cases hrest : state.rest with
  | nil => exact absurd hrest h
  | cons token rest =>
      simp only [State.synchronized, hrest, List.length_drop, List.length_cons]
      omega

/-- A declaration takes a token if there is one, whether it is understood or not. -/
theorem declaration_takes (hstatement : Consumes (sub .statement)) {statement : Option Stmt}
    (hrest : before.rest ≠ []) (h : result (declaration sub) setting before = .ok statement after) :
    after.rest.length < before.rest.length := by
  rw [declaration, result_tryCatch] at h
  cases hplain : result (some <$> plainDeclaration sub) setting before with
  | ok read middle =>
      rw [hplain] at h
      cases h
      exact (plainDeclaration_consumes hsub hstatement).map some _ _ _ _ hplain
  | error halt middle =>
      rw [hplain] at h
      have hadvances := (Advances.congruence.plainDeclaration sub hsub).map some
      have hle := (hadvances.of_error hplain).length_le
      cases halt with
      | outOfFuel => cases h
      | fault error =>
          replace h : result (do note error; synchronize; return none) setting middle =
            .ok statement after := h
          rw [bind_of_ok (result_note error), bind_of_ok result_synchronize] at h
          cases h
          by_cases hmiddle : middle.rest = []
          · have := ((Advance.noted middle error).trans (Advance.synchronized _)).length_le
            have := List.length_pos_iff.mpr hrest
            simp only [hmiddle, List.length_nil] at *
            omega
          · have hlt : (middle.noted error).synchronized.rest.length < middle.rest.length :=
              State.length_synchronized_lt hmiddle
            omega

end

/-- Reading a statement takes a token however many references to rules are allowed. -/
theorem Rule.run_statement_consumes (fuel : Nat) : Consumes (Rule.run fuel .statement) := by
  cases fuel with
  | zero => exact fun _ _ _ _ h => by cases h
  | succ fuel => exact statement_consumes (Rule.run_advances fuel)

theorem Rule.run_declaration_takes {fuel : Nat} {statement : Option Stmt}
    (hrest : before.rest ≠ [])
    (h : result (Rule.run fuel .declaration) setting before = .ok statement after) :
    after.rest.length < before.rest.length := by
  cases fuel with
  | zero => cases h
  | succ fuel =>
      exact declaration_takes (Rule.run_advances fuel) (Rule.run_statement_consumes fuel) hrest h

end Lox.Grammar
