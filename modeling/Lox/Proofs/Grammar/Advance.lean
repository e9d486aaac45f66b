import Lox.Proofs.Grammar.Congruence

/-!
# A parser only moves forward

Whatever a rule of the grammar does, it ends at a later cursor: tokens are taken off the front,
errors are added behind the earlier ones, and identities are handed out upwards. This holds for
faults and for any amount of fuel too.
-/

namespace Lox.Grammar

variable {α β : Type}

/-- A cursor at or after another one. -/
structure Advance (before after : State) : Prop where
  read : ∃ tokens, before.rest = tokens ++ after.rest ∧
    after.position = before.position + tokens.length
  errors : before.errors <+: after.errors
  nextId : before.nextId ≤ after.nextId

namespace Advance

variable {before middle after : State}

theorem refl (state : State) : Advance state state :=
  ⟨⟨[], rfl, rfl⟩, List.prefix_refl _, Nat.le_refl _⟩

theorem trans (first : Advance before middle) (second : Advance middle after) :
    Advance before after := by
  obtain ⟨⟨front, hfront, hposition⟩, errors, nextId⟩ := first
  obtain ⟨⟨back, hback, hposition'⟩, errors', nextId'⟩ := second
  refine ⟨⟨front ++ back, ?_, ?_⟩, errors.trans errors', Nat.le_trans nextId nextId'⟩
  · rw [hfront, hback, List.append_assoc]
  · rw [hposition', hposition, List.length_append, Nat.add_assoc]

theorem length_le (h : Advance before after) : after.rest.length ≤ before.rest.length := by
  obtain ⟨tokens, hrest, -⟩ := h.read
  simp [hrest]

theorem errors_eq_nil (h : Advance before after) (hnil : after.errors = []) :
    before.errors = [] := by
  have := h.errors
  rwa [hnil, List.prefix_nil] at this

theorem skipped (state : State) : Advance state state.skipped := by
  cases h : state.rest with
  | nil => simpa [State.skipped, h] using refl state
  | cons token rest =>
      rw [State.skipped_of_cons h]
      exact ⟨⟨[token], by simp [h], rfl⟩, List.prefix_refl _, Nat.le_refl _⟩

theorem renewed (state : State) : Advance state state.renewed :=
  ⟨⟨[], rfl, rfl⟩, List.prefix_refl _, Nat.le_succ _⟩

theorem synchronized (state : State) : Advance state state.synchronized := by
  cases h : state.rest with
  | nil => simpa [State.synchronized, h] using refl state
  | cons token rest =>
      have hdrop : (rest.take (toBoundary token rest)).length = toBoundary token rest := by
        rw [List.length_take]
        exact Nat.min_eq_left (toBoundary_le_length token rest)
      refine ⟨⟨token :: rest.take (toBoundary token rest), ?_, ?_⟩, ?_, ?_⟩
      · simp [State.synchronized, h]
      · simp [State.synchronized, h, hdrop, Nat.add_assoc, Nat.add_comm]
      · simp [State.synchronized, h]
      · simp [State.synchronized, h]

theorem noted (state : State) (error : SyntaxError) : Advance state (state.noted error) :=
  ⟨⟨[], rfl, rfl⟩, List.prefix_append _ _, Nat.le_refl _⟩

theorem checked (state : State) (setting : Setting) (count : Nat) (fault : Nat → SyntaxFault) :
    Advance state (state.checked setting count fault) := by
  unfold State.checked
  cases setting.limit with
  | none => exact refl state
  | some limit =>
      by_cases h : limit ≤ count
      · simpa [h] using noted state _
      · simpa [h] using refl state

end Advance

/-! ## Parsers that advance -/

/-- The cursor where a result leaves it. -/
@[simp] def endOf : EStateM.Result Halt State α → State
  | .ok _ state => state
  | .error _ state => state

/-- The parser only moves the cursor forward, also when it gives up. -/
def Advances (parser : Parser α) : Prop :=
  ∀ setting before, Advance before (endOf (result parser setting before))

namespace Advances

variable {setting : Setting} {before after : State}

theorem of_ok {parser : Parser α} (h : Advances parser) {a : α}
    (hok : result parser setting before = .ok a after) : Advance before after := by
  have := h setting before
  rwa [hok] at this

theorem of_error {parser : Parser α} (h : Advances parser) {halt : Halt}
    (herror : result parser setting before = .error halt after) : Advance before after := by
  have := h setting before
  rwa [herror] at this

theorem pure (a : α) : Advances (Pure.pure a) :=
  fun _ before => Advance.refl before

theorem bind {first : Parser α} {second : α → Parser β} (hfirst : Advances first)
    (hsecond : ∀ a, Advances (second a)) : Advances (first >>= second) := by
  intro setting before
  cases h : result first setting before with
  | ok a middle =>
      rw [bind_of_ok h]
      exact (hfirst.of_ok h).trans (hsecond a setting middle)
  | error halt middle =>
      rw [bind_of_error h]
      exact hfirst.of_error h

theorem map {parser : Parser α} (f : α → β) (h : Advances parser) : Advances (f <$> parser) := by
  rw [map_eq_bind]
  exact h.bind fun a => pure (f a)

theorem ite {condition : Prop} [Decidable condition] {yes no : Parser α} (hyes : Advances yes)
    (hno : Advances no) : Advances (if condition then yes else no) := by
  split
  · exact hyes
  · exact hno

/-! ## The cursor's operations -/

theorem peek : Advances Grammar.peek := fun _ before => Advance.refl before

theorem atEnd : Advances Grammar.atEnd := fun _ before => Advance.refl before

theorem sees (category : Category) : Advances (Grammar.sees category) := fun _ before =>
  Advance.refl before

theorem skip : Advances Grammar.skip := by
  intro setting before
  rw [result_skip]
  exact Advance.skipped before

theorem freshId : Advances Grammar.freshId := fun _ before => Advance.renewed before

theorem faultHere (fault : SyntaxFault) : Advances (Grammar.faultHere fault) := fun _ before =>
  Advance.refl before

theorem note (error : SyntaxError) : Advances (Grammar.note error) := fun _ before =>
  Advance.noted before error

theorem giveUp (fault : SyntaxFault) : Advances (Grammar.giveUp fault : Parser α) :=
  fun _ before => Advance.refl before

theorem expect (category : Category) (fault : SyntaxFault) :
    Advances (Grammar.expect category fault) := by
  intro setting before
  by_cases h : before.next? = some category
  · rw [result_expect_of_next h]
    exact Advance.skipped before
  · rw [result_expect_of_not h]
    exact Advance.refl before

theorem checkLimit (count : Nat) (fault : Nat → SyntaxFault) :
    Advances (Grammar.checkLimit count fault) := by
  intro setting before
  rw [result_checkLimit]
  exact Advance.checked before setting count fault

theorem synchronize : Advances Grammar.synchronize := by
  intro setting before
  rw [result_synchronize]
  exact Advance.synchronized before

/-- Moving forward is a congruence. -/
def congruence : Congruence where
  Rel parser _ := Advances parser
  pure := pure
  bind hfirst hsecond := hfirst.bind hsecond
  peek := peek
  atEnd := atEnd
  sees := sees
  skip := skip
  freshId := freshId
  giveUp _ := giveUp _

theorem accepts (category : Category) : Advances (Grammar.accepts category) :=
  congruence.accepts category

end Advances

/-! ## Rules that advance -/

section

variable {sub : Readers} (hsub : ∀ rule, Advances (sub rule))

include hsub

theorem expression_advances : Advances (expression sub) := by
  refine (hsub _).bind fun target => (Advances.faultHere _).bind fun invalid =>
    (Advances.accepts _).bind fun assigned => Advances.ite ?_ (Advances.pure _)
  refine (hsub .expression).bind fun value => ?_
  cases target with
  | var id name => exact Advances.freshId.bind fun _ => Advances.pure _
  | get id object name => exact Advances.freshId.bind fun _ => Advances.pure _
  | _ => exact (Advances.note _).bind fun _ => Advances.pure _

theorem declaration_advances : Advances (declaration sub) := by
  intro setting before
  have hplain := (Advances.congruence.plainDeclaration sub hsub).map some
  rw [declaration, result_tryCatch]
  cases h : result (some <$> plainDeclaration sub) setting before with
  | ok statement after => exact hplain.of_ok h
  | error halt after =>
      refine (hplain.of_error h).trans ?_
      cases halt with
      | outOfFuel => exact Advance.refl after
      | fault error =>
          exact ((Advances.note error).bind fun _ => Advances.synchronize.bind fun _ =>
            Advances.pure none) setting after

/-- Reading by a rule moves forward if reading by the rules that it refers to does. -/
theorem Rule.step_advances (rule : Rule) : Advances (rule.step sub) := by
  cases rule with
  | declaration => exact declaration_advances hsub
  | expression => exact expression_advances hsub
  | parameters count => exact Advances.congruence.parameters sub hsub (.checkLimit _ _)
  | arguments count => exact Advances.congruence.arguments sub hsub (.checkLimit _ _)
  | _ => exact Advances.congruence.step sub hsub True.intro

end

/-- However many references to rules are allowed, reading moves forward. -/
theorem Rule.run_advances (fuel : Nat) (rule : Rule) : Advances (Rule.run fuel rule) := by
  induction fuel generalizing rule with
  | zero => exact fun _ before => Advance.refl before
  | succ fuel ih => exact rule.step_advances ih

end Lox.Grammar
