import Lox.Proofs.Grammar.Fuel

/-!
# Parsers that give what is asked for

From a state whose next tokens are known, what a parser gives, which tokens it leaves, and that it
records no error: one rule for each operation of the cursor, and one for parsers in a row.
-/

namespace Lox.Grammar

variable {α β : Type} {setting : Setting} {before after : State} {rest tail : List Token}

/-- From a state the parser gives something good, with the given tokens left and no error. -/
def Gives (parser : Parser α) (setting : Setting) (before : State) (rest : List Token)
    (good : α → Prop) : Prop :=
  ∃ a after, result parser setting before = .ok a after ∧ after.rest = rest ∧
    after.errors = before.errors ∧ good a

namespace Gives

variable {good : α → Prop} {fine : β → Prop}

theorem pure {a : α} (hrest : before.rest = rest) (h : good a) :
    Gives (Pure.pure a) setting before rest good :=
  ⟨a, before, rfl, hrest, rfl, h⟩

/-- Going on from a later state with the same errors. -/
theorem of_eq {first second : Parser α}
    (heq : result first setting before = result second setting after)
    (herrors : after.errors = before.errors) (h : Gives second setting after rest good) :
    Gives first setting before rest good := by
  obtain ⟨a, last, hresult, hrest, hlast, ha⟩ := h
  exact ⟨a, last, heq.trans hresult, hrest, hlast.trans herrors, ha⟩

theorem bind {first : Parser α} {second : α → Parser β}
    (hfirst : Gives first setting before tail good)
    (hsecond : ∀ a middle, good a → middle.rest = tail →
      Gives (second a) setting middle rest fine) :
    Gives (first >>= second) setting before rest fine := by
  obtain ⟨a, middle, hresult, hrest, herrors, ha⟩ := hfirst
  exact of_eq (bind_of_ok hresult) herrors (hsecond a middle ha hrest)

theorem map {parser : Parser α} {f : α → β} (h : Gives parser setting before rest good)
    (himp : ∀ a, good a → fine (f a)) : Gives (f <$> parser) setting before rest fine := by
  rw [map_eq_bind]
  exact h.bind fun a middle ha hrest => pure hrest (himp a ha)

theorem peek_bind {second : Token → Parser β} {token : Token} (hrest : before.rest = token :: tail)
    (h : Gives (second token) setting before rest fine) :
    Gives (peek >>= second) setting before rest fine := by
  refine of_eq (bind_of_ok result_peek) rfl ?_
  rwa [hrest, List.head?_cons, Option.getD_some]

theorem skip_bind {second : Unit → Parser β} {token : Token} (hrest : before.rest = token :: tail)
    (h : ∀ middle, middle.rest = tail → Gives (second ()) setting middle rest fine) :
    Gives (skip >>= second) setting before rest fine :=
  of_eq (bind_of_ok result_skip) (by simp) (h _ (by simp [hrest]))

theorem freshId_bind {second : NodeId → Parser β}
    (h : ∀ id middle, middle.rest = before.rest → Gives (second id) setting middle rest fine) :
    Gives (freshId >>= second) setting before rest fine :=
  of_eq (bind_of_ok result_freshId) rfl (h _ _ rfl)

theorem expect_bind {category : Category} {fault : SyntaxFault} {second : Token → Parser β}
    {token : Token} (hrest : before.rest = token :: tail) (hcategory : token.category = category)
    (h : ∀ middle, middle.rest = tail → Gives (second token) setting middle rest fine) :
    Gives (expect category fault >>= second) setting before rest fine := by
  have hnext : before.next? = some category := by simp [State.next?, hrest, hcategory]
  refine of_eq (bind_of_ok (result_expect_of_next hnext fault)) (by simp) ?_
  rw [hrest, List.head?_cons, Option.getD_some]
  exact h _ (by simp [hrest])

theorem accepts_yes {category : Category} {yes no : Parser α} {token : Token}
    (hrest : before.rest = token :: tail) (hcategory : token.category = category)
    (h : ∀ middle, middle.rest = tail → Gives yes setting middle rest good) :
    Gives (accepts category >>= fun accepted => if accepted = true then yes else no)
      setting before rest good := by
  have hnext : before.next? = some category := by simp [State.next?, hrest, hcategory]
  refine of_eq (accepts_ite_of_next hnext) (by simp) ?_
  exact h _ (by simp [hrest])

theorem accepts_no {category : Category} {yes no : Parser α}
    (hnext : nextOf before.rest ≠ some category) (h : Gives no setting before rest good) :
    Gives (accepts category >>= fun accepted => if accepted = true then yes else no)
      setting before rest good :=
  of_eq (accepts_ite_of_not hnext) rfl h

theorem sees_yes {category : Category} {yes no : Parser α}
    (hnext : nextOf before.rest = some category) (h : Gives yes setting before rest good) :
    Gives (sees category >>= fun seen => if seen = true then yes else no)
      setting before rest good := by
  refine of_eq (bind_of_ok (result_sees category)) rfl ?_
  have : before.next? = some category := hnext
  simpa [this] using h

theorem sees_no {category : Category} {yes no : Parser α}
    (hnext : nextOf before.rest ≠ some category) (h : Gives no setting before rest good) :
    Gives (sees category >>= fun seen => if seen = true then yes else no)
      setting before rest good := by
  refine of_eq (bind_of_ok (result_sees category)) rfl ?_
  have : before.next? ≠ some category := hnext
  simpa [this] using h

/-- An entry among the first eight leaves no error. -/
theorem checkLimit_bind (hlimit : setting.limit = some entryLimit) {count : Nat}
    {fault : Nat → SyntaxFault} (hcount : count < 8) {second : Unit → Parser β}
    (h : Gives (second ()) setting before rest fine) :
    Gives (checkLimit count fault >>= second) setting before rest fine := by
  have hchecked : before.checked setting count fault = before := by
    have : ¬entryLimit ≤ count := Nat.not_le_of_lt hcount
    simp [State.checked, hlimit, this]
  refine of_eq (bind_of_ok (result_checkLimit count fault)) (by rw [hchecked]) ?_
  rwa [hchecked]

/-- Reading by a rule gives what the rule's definition gives. -/
theorem read (hending : setting.ending.category = .eof) {rule : Rule} {good : rule.Tree → Prop}
    (h : Gives (rule.step Rule.read) setting before rest good) :
    Gives (Rule.read rule) setting before rest good :=
  of_eq (Rule.read_eq hending rule before) rfl h

end Gives

end Lox.Grammar
