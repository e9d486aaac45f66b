import Lox.Grammar.Program

/-!
# What the cursor's operations do

Each operation of the cursor as an equation between its state before and its result, and how a
result of two parsers in a row comes about. The facts about rules rest on these equations and
open no operation again.
-/

namespace Lox.Grammar

variable {α β : Type} {setting : Setting} {before after : State}

theorem toBoundary_le_length (previous : Token) (tokens : List Token) :
    toBoundary previous tokens ≤ tokens.length := by
  induction tokens generalizing previous with
  | nil => exact Nat.le_refl 0
  | cons token rest ih =>
      rw [toBoundary]
      split
      · exact Nat.zero_le _
      · exact Nat.succ_le_succ (ih token)

/-- The category of the first of some tokens. -/
def nextOf (tokens : List Token) : Option Category :=
  tokens.head?.map (·.category)

@[simp] theorem nextOf_nil : nextOf [] = none := rfl

@[simp] theorem nextOf_cons (token : Token) (rest : List Token) :
    nextOf (token :: rest) = some token.category := rfl

namespace State

/-- The category of the next token, if there is one. -/
def next? (state : State) : Option Category :=
  nextOf state.rest

/-- The state after the next token. -/
def skipped (state : State) : State :=
  match state.rest with
  | [] => state
  | _ :: rest => { state with rest := rest, position := state.position + 1 }

/-- The state with another unused identity taken. -/
def renewed (state : State) : State :=
  { state with nextId := state.nextId + 1 }

/-- The state with an error more. -/
def noted (state : State) (error : SyntaxError) : State :=
  { state with errors := state.errors ++ [error] }

/-- The state after an entry with index `count` was checked against the limit. -/
def checked (state : State) (setting : Setting) (count : Nat) (fault : Nat → SyntaxFault) : State :=
  match setting.limit with
  | some limit =>
      if limit ≤ count then
        state.noted ⟨fault limit, state.rest.head?.getD setting.ending, state.position⟩
      else state
  | none => state

/-- The state after the next token and those up to the next boundary between statements. -/
def synchronized (state : State) : State :=
  match state.rest with
  | [] => state
  | token :: rest =>
      { state with
        rest := rest.drop (toBoundary token rest)
        position := state.position + 1 + toBoundary token rest }

theorem skipped_of_cons {state : State} {token : Token} {rest : List Token}
    (h : state.rest = token :: rest) :
    state.skipped = { state with rest := rest, position := state.position + 1 } := by
  simp [skipped, h]

theorem next?_eq_some {state : State} {category : Category} (h : state.next? = some category) :
    ∃ token rest, state.rest = token :: rest ∧ token.category = category := by
  cases hrest : state.rest with
  | nil => simp [next?, hrest] at h
  | cons token rest => exact ⟨token, rest, rfl, by simpa [next?, hrest] using h⟩

@[simp] theorem skipped_errors (state : State) : state.skipped.errors = state.errors := by
  cases hrest : state.rest <;> simp [skipped, hrest]

@[simp] theorem skipped_nextId (state : State) : state.skipped.nextId = state.nextId := by
  cases hrest : state.rest <;> simp [skipped, hrest]

@[simp] theorem skipped_rest (state : State) : state.skipped.rest = state.rest.tail := by
  cases hrest : state.rest <;> simp [skipped, hrest]

@[simp] theorem renewed_rest (state : State) : state.renewed.rest = state.rest := rfl
@[simp] theorem renewed_errors (state : State) : state.renewed.errors = state.errors := rfl
@[simp] theorem noted_rest (state : State) (error : SyntaxError) :
    (state.noted error).rest = state.rest := rfl

@[simp] theorem checked_rest (state : State) (setting : Setting) (count : Nat)
    (fault : Nat → SyntaxFault) : (state.checked setting count fault).rest = state.rest := by
  unfold checked
  cases setting.limit with
  | none => rfl
  | some limit => by_cases h : limit ≤ count <;> simp [h]

end State

/-! ## Parsers in a row -/

/-- What a parser gives from a state. -/
def result (parser : Parser α) (setting : Setting) (before : State) : EStateM.Result Halt State α :=
  parser setting before

theorem result_pure (a : α) : result (pure a) setting before = .ok a before := rfl

theorem bind_of_ok {first : Parser α} {second : α → Parser β} {a : α}
    (h : result first setting before = .ok a after) :
    result (first >>= second) setting before = result (second a) setting after := by
  simp only [result] at h
  simp only [result, bind, ReaderT.bind, EStateM.bind, h]

theorem bind_of_error {first : Parser α} {second : α → Parser β} {halt : Halt}
    (h : result first setting before = .error halt after) :
    result (first >>= second) setting before = .error halt after := by
  simp only [result] at h
  simp only [result, bind, ReaderT.bind, EStateM.bind, h]

theorem bind_eq_ok {first : Parser α} {second : α → Parser β} {b : β} :
    result (first >>= second) setting before = .ok b after ↔
      ∃ a middle, result first setting before = .ok a middle ∧
        result (second a) setting middle = .ok b after := by
  constructor
  · intro h
    cases hfirst : result first setting before with
    | ok a middle => exact ⟨a, middle, rfl, by rwa [bind_of_ok hfirst] at h⟩
    | error halt middle => simp [bind_of_error hfirst] at h
  · rintro ⟨a, middle, hfirst, hsecond⟩
    rwa [bind_of_ok hfirst]

theorem map_eq_bind (f : α → β) (parser : Parser α) :
    f <$> parser = parser >>= fun a => pure (f a) := by
  funext setting before
  change result (f <$> parser) setting before = result _ setting before
  cases h : result parser setting before with
  | ok a middle =>
      rw [bind_of_ok h]
      simp only [result] at h
      simp only [result, Functor.map, EStateM.map, h]
      rfl
  | error halt middle =>
      rw [bind_of_error h]
      simp only [result] at h
      simp only [result, Functor.map, EStateM.map, h]

theorem result_tryCatch (parser : Parser α) (handler : Halt → Parser α) :
    result (tryCatch parser handler) setting before =
      match result parser setting before with
      | .ok a after => .ok a after
      | .error halt after => result (handler halt) setting after := by
  change (EStateM.tryCatch (parser setting) fun halt => handler halt setting) before = _
  cases h : result parser setting before with
  | ok a middle => simp only [result] at h; unfold EStateM.tryCatch; rw [h]
  | error halt middle => simp only [result] at h; unfold EStateM.tryCatch; rw [h]; rfl

/-! ## Looking and moving -/

theorem result_peek :
    result peek setting before = .ok (before.rest.head?.getD setting.ending) before := rfl

theorem result_atEnd : result atEnd setting before = .ok before.rest.isEmpty before := rfl

theorem result_sees (category : Category) :
    result (sees category) setting before =
      .ok (decide (before.next? = some category)) before := by
  change EStateM.Result.ok (before.rest.head?.any (·.category = category)) before = _
  cases h : before.rest with
  | nil => simp [State.next?, h]
  | cons token rest => simp [State.next?, h]

theorem result_skip : result skip setting before = .ok () before.skipped := by
  change EStateM.Result.ok () _ = _
  cases h : before.rest <;> simp [State.skipped, h]

theorem result_freshId : result freshId setting before = .ok before.nextId before.renewed := rfl

theorem result_faultHere (fault : SyntaxFault) :
    result (faultHere fault) setting before =
      .ok ⟨fault, before.rest.head?.getD setting.ending, before.position⟩ before := rfl

theorem result_note (error : SyntaxError) :
    result (note error) setting before = .ok () (before.noted error) := rfl

theorem result_checkLimit (count : Nat) (fault : Nat → SyntaxFault) :
    result (checkLimit count fault) setting before =
      .ok () (before.checked setting count fault) := by
  have hread : result (read : Parser Setting) setting before = .ok setting before := rfl
  rw [checkLimit, bind_of_ok hread, State.checked]
  cases setting.limit with
  | none => rfl
  | some limit => by_cases h : limit ≤ count <;> simp [h] <;> rfl

theorem result_synchronize :
    result synchronize setting before = .ok () before.synchronized := by
  change EStateM.Result.ok () _ = _
  cases h : before.rest <;> simp [State.synchronized, h]

theorem result_giveUp (fault : SyntaxFault) :
    result (giveUp fault : Parser α) setting before =
      .error (.fault ⟨fault, before.rest.head?.getD setting.ending, before.position⟩) before :=
  rfl

theorem result_accept? (category : Category) :
    result (accept? category) setting before =
      if before.next? = some category then .ok before.rest.head? before.skipped
      else .ok none before := by
  rw [accept?, bind_of_ok (result_sees category)]
  by_cases h : before.next? = some category
  · obtain ⟨token, rest, hrest, -⟩ := State.next?_eq_some h
    simp only [h, decide_true, if_true]
    rw [bind_of_ok result_peek, bind_of_ok result_skip]
    simp [hrest, result_pure]
  · simp [h, result_pure]

theorem result_accepts_of_next {category : Category} (h : before.next? = some category) :
    result (accepts category) setting before = .ok true before.skipped := by
  obtain ⟨token, rest, hrest, -⟩ := State.next?_eq_some h
  rw [accepts, bind_of_ok (by rw [result_accept?, if_pos h])]
  simp [hrest, result_pure]

theorem result_accepts_of_not {category : Category} (h : before.next? ≠ some category) :
    result (accepts category) setting before = .ok false before := by
  rw [accepts, bind_of_ok (by rw [result_accept?, if_neg h])]
  rfl

/-- The next token is of the category: it is taken, and reading goes on with `yes`. -/
theorem accepts_ite_of_next {category : Category} {yes no : Parser α}
    (h : before.next? = some category) :
    result (accepts category >>= fun accepted => if accepted = true then yes else no)
      setting before = result yes setting before.skipped :=
  bind_of_ok (result_accepts_of_next h)

/-- The next token is not of the category: reading goes on with `no`. -/
theorem accepts_ite_of_not {category : Category} {yes no : Parser α}
    (h : before.next? ≠ some category) :
    result (accepts category >>= fun accepted => if accepted = true then yes else no)
      setting before = result no setting before :=
  bind_of_ok (result_accepts_of_not h)

theorem result_expect_of_next {category : Category} (h : before.next? = some category)
    (fault : SyntaxFault) :
    result (expect category fault) setting before =
      .ok (before.rest.head?.getD setting.ending) before.skipped := by
  obtain ⟨token, rest, hrest, -⟩ := State.next?_eq_some h
  rw [expect, bind_of_ok (by rw [result_accept?, if_pos h])]
  simp [hrest, result_pure]

theorem result_expect_of_not {category : Category} (h : before.next? ≠ some category)
    (fault : SyntaxFault) :
    result (expect category fault) setting before =
      .error (.fault ⟨fault, before.rest.head?.getD setting.ending, before.position⟩) before := by
  rw [expect, bind_of_ok (by rw [result_accept?, if_neg h])]
  rfl

end Lox.Grammar
