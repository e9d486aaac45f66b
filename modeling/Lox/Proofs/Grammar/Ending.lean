import Lox.Proofs.Grammar.ErrorOrder
import Lox.Proofs.Grammar.Parsing
import Lox.Proofs.Grammar.Renumbering

/-!
# The end of a token list

A parser reads a token list up to its first end marker, and a list without one as if there was an end
marker on line 1 behind it. A cursor is a place in the whole list: it looks at the token there, moves
on by one unless this is an end marker, and after a fault moves on to a boundary between statements.
So it never comes past the first end marker, whichever rule it reads by and wherever that gives up.
-/

namespace Lox.Grammar

variable {tokens : List Token} {state before after : State}

/-! ## Cursors in a whole token list -/

/-- What the cursor has still to read is what the token list holds from its place on, up to the next
end marker or the end of the list. -/
def Faces (tokens : List Token) (state : State) : Prop :=
  state.rest = (tokens.drop state.position).takeWhile (·.category ≠ .eof)

namespace Faces

theorem of_cons (h : Faces tokens state) {token : Token} {rest : List Token}
    (hrest : state.rest = token :: rest) :
    tokens[state.position]? = some token ∧ token.category ≠ .eof ∧ Faces tokens state.skipped := by
  rw [Faces, hrest] at h
  cases hdrop : tokens.drop state.position with
  | nil => simp [hdrop] at h
  | cons first more =>
      by_cases heof : first.category = .eof
      · simp [hdrop, heof] at h
      · obtain ⟨rfl, rfl⟩ : token = first ∧ rest = more.takeWhile (·.category ≠ .eof) := by
          simpa [hdrop, heof] using h
        refine ⟨by rw [← List.head?_drop, hdrop]; rfl, heof, ?_⟩
        rw [State.skipped_of_cons hrest, Faces, ← List.tail_drop, hdrop]
        rfl

/-- Everything is read where the list has an end marker, or no token. -/
theorem rest_eq_nil_iff (h : Faces tokens state) :
    state.rest = [] ↔ (tokenAt tokens default state.position).category = .eof := by
  rw [Faces] at h
  rw [h, tokenAt, ← List.head?_drop]
  cases tokens.drop state.position with
  | nil => simp; rfl
  | cons token more => by_cases heof : token.category = .eof <;> simp [heof]

/-- Whoever moves forward in what is still to be read faces the list further on. -/
theorem advance (h : Faces tokens before) (hadvance : Advance before after) :
    Faces tokens after := by
  obtain ⟨front, hfront, hposition⟩ := hadvance.read
  clear hadvance
  induction front generalizing before with
  | nil =>
      rw [Faces] at h ⊢
      rw [hposition, List.length_nil, Nat.add_zero, ← h, hfront, List.nil_append]
  | cons token front ih =>
      obtain ⟨-, -, hskipped⟩ := h.of_cons hfront
      rw [State.skipped_of_cons hfront] at hskipped
      exact ih hskipped rfl (by rw [hposition, List.length_cons, Nat.add_assoc, Nat.add_comm 1])

end Faces

/-- The cursor stands in a token list. It has passed as many tokens as its position says, and no end
marker; what it has still to read goes up to the next end marker or the end of the list. -/
structure Stands (tokens : List Token) (state : State) : Prop where
  position : state.position ≤ tokens.length
  passed : ∀ token ∈ tokens.take state.position, token.category ≠ .eof
  rest : state.rest = (tokens.drop state.position).takeWhile (·.category ≠ .eof)

namespace Stands

theorem start (tokens : List Token) (nextId : NodeId) : Stands tokens (.start tokens nextId) :=
  ⟨Nat.zero_le _, by simp [State.start], rfl⟩

/-- Whoever moves forward in what is still to be read stands further on in the list. -/
theorem advance (h : Stands tokens before) (hadvance : Advance before after) :
    Stands tokens after := by
  obtain ⟨front, hfront, hposition⟩ := hadvance.read
  have hread : ∀ token ∈ front ++ after.rest, token.category ≠ .eof := by
    intro token htoken
    rw [← hfront, h.rest] at htoken
    simpa using List.mem_takeWhile_imp htoken
  have hsplit : tokens.drop before.position = front ++ (after.rest ++
      (tokens.drop before.position).dropWhile (·.category ≠ .eof)) := by
    rw [← List.append_assoc, ← hfront, h.rest, List.takeWhile_append_dropWhile]
  have htake : tokens.take after.position = tokens.take before.position ++ front := by
    rw [hposition, List.take_add, hsplit, List.take_left]
  refine ⟨?_, fun token htoken => ?_, ?_⟩
  · have hlength := congrArg List.length hsplit
    rw [List.length_drop, List.length_append] at hlength
    have hbefore := h.position
    omega
  · rw [htake] at htoken
    rcases List.mem_append.mp htoken with htoken | htoken
    · exact h.passed token htoken
    · exact hread token (List.mem_append_left _ htoken)
  · exact Faces.advance h.rest hadvance

/-- The next token is the one in the list at the cursor's place. -/
theorem tokenAt_eq (h : Stands tokens state) :
    tokenAt tokens default state.position = state.rest.head?.getD (endMarker tokens) := by
  have hnone : (tokens.take state.position).find? (·.category = .eof) = none :=
    List.find?_eq_none.mpr fun token htoken => by simpa using h.passed token htoken
  have hsplit : (tokens.take state.position ++ tokens.drop state.position).find?
      (·.category = .eof) = (tokens.drop state.position).find? (·.category = .eof) := by
    rw [List.find?_append, hnone, Option.none_or]
  rw [List.take_append_drop] at hsplit
  rw [tokenAt, ← List.head?_drop, h.rest, endMarker, hsplit]
  cases tokens.drop state.position with
  | nil => rfl
  | cons token more => by_cases heof : token.category = .eof <;> simp [heof]

theorem faces (h : Stands tokens state) : Faces tokens state := h.rest

/-! ### The cursor's operations -/

theorem result_peek (h : Stands tokens state) :
    result peek (.standard tokens) state =
      .ok (tokenAt tokens default state.position) state := by
  rw [Grammar.result_peek, h.tokenAt_eq]
  rfl

theorem result_atEnd (h : Stands tokens state) :
    result atEnd (.standard tokens) state =
      .ok (decide ((tokenAt tokens default state.position).category = .eof)) state := by
  rw [Grammar.result_atEnd]
  congr 1
  rw [Bool.eq_iff_iff, List.isEmpty_iff, decide_eq_true_iff]
  exact h.faces.rest_eq_nil_iff

theorem result_sees (h : Stands tokens state) {category : Category} (hcategory : category ≠ .eof) :
    result (sees category) (.standard tokens) state =
      .ok (decide ((tokenAt tokens default state.position).category = category)) state := by
  have hnext : state.next? = some category ↔
      (tokenAt tokens default state.position).category = category := by
    rw [h.tokenAt_eq, State.next?]
    cases state.rest with
    | nil => simp [endMarker_category, Ne.symm hcategory]
    | cons token more => simp
  rw [Grammar.result_sees, decide_eq_decide.mpr hnext]

end Stands

/-! ### Recovery -/

/-- A place where the list ends, a semicolon is right before, or a statement begins. -/
def Boundary (tokens : List Token) (place : Nat) : Prop :=
  (tokenAt tokens default place).category = .eof ∨
    (tokenAt tokens default (place - 1)).category = .symbol .semicolon ∨
    beginsStatement (tokenAt tokens default place).category = true

/-- The place is the first boundary behind another one. -/
structure NextBoundary (tokens : List Token) (place next : Nat) : Prop where
  lt : place < next
  boundary : Boundary tokens next
  first : ∀ between, place < between → between < next → ¬Boundary tokens between

theorem Faces.nextBoundary (h : Faces tokens state) {token : Token} {rest : List Token}
    (hrest : state.rest = token :: rest) :
    NextBoundary tokens state.position (state.position + 1 + toBoundary token rest) := by
  induction rest generalizing state token with
  | nil =>
      obtain ⟨-, -, hskipped⟩ := h.of_cons hrest
      rw [State.skipped_of_cons hrest] at hskipped
      refine ⟨by omega, .inl (hskipped.rest_eq_nil_iff.mp rfl), fun between hbehind hbefore => ?_⟩
      rw [toBoundary] at hbefore
      omega
  | cons next rest ih =>
      obtain ⟨htoken, -, hskipped⟩ := h.of_cons hrest
      rw [State.skipped_of_cons hrest] at hskipped
      obtain ⟨hnext, hopen, -⟩ := hskipped.of_cons rfl
      replace htoken : tokenAt tokens default state.position = token := by rw [tokenAt, htoken]; rfl
      replace hnext : tokenAt tokens default (state.position + 1) = next := by
        rw [tokenAt, hnext]
        rfl
      by_cases hstop : token.category = .symbol .semicolon ∨ beginsStatement next.category = true
      · rw [toBoundary, if_pos hstop]
        refine ⟨by omega, .inr ?_, fun between hbehind hbefore => by omega⟩
        rwa [Nat.add_zero, Nat.add_sub_cancel, htoken, hnext]
      · rw [toBoundary, if_neg hstop]
        have hmore := ih hskipped rfl
        have hplace : state.position + 1 + (toBoundary next rest + 1) =
            state.position + 1 + 1 + toBoundary next rest := by omega
        rw [hplace]
        refine ⟨Nat.lt_trans (Nat.lt_succ_self _) hmore.lt, hmore.boundary, ?_⟩
        intro between hbehind hbefore
        obtain rfl | hfurther := Nat.eq_or_lt_of_le (Nat.succ_le_of_lt hbehind)
        · rw [Boundary, Nat.succ_eq_add_one, Nat.add_sub_cancel, htoken, hnext]
          exact not_or.mpr ⟨hopen, hstop⟩
        · exact hmore.first between hfurther hbefore

/-- Recovery passes over the next token and goes on to the first boundary behind it; at the end it
stays. -/
theorem Faces.synchronized (h : Faces tokens state) :
    ((tokenAt tokens default state.position).category = .eof ∧ state.synchronized = state) ∨
      NextBoundary tokens state.position state.synchronized.position := by
  cases hrest : state.rest with
  | nil => exact .inl ⟨h.rest_eq_nil_iff.mp hrest, by simp [State.synchronized, hrest]⟩
  | cons token rest =>
      refine .inr ?_
      have hnext := h.nextBoundary hrest
      simpa [State.synchronized, hrest] using hnext

/-- Reads so many expressions, each from where the cursor was left. -/
def readExpressions (setting : Setting) : (count : Nat) → State →
    List (Except SyntaxError Expr × State)
  | 0, _ => []
  | count + 1, state =>
      let reading := readExpression setting state
      reading :: readExpressions setting count reading.2

/-- What is seen of a reading without identities: the tree or the fault, the errors that were noted
and the place of the cursor. -/
def seen (reading : Except SyntaxError Expr × State) :
    Except SyntaxError Expr × List SyntaxError × Nat :=
  (reading.1.map Expr.erase, reading.2.errors, reading.2.position)

/-- Identities make no difference to what is seen of a reading. -/
theorem readExpression_renumbered (setting : Setting) (state : State) (nextId : NodeId) :
    seen (readExpression setting (state.renumbered nextId)) = seen (readExpression setting state) ∧
      ∃ later, (readExpression setting (state.renumbered nextId)).2 =
        (readExpression setting state).2.renumbered later := by
  have hread := (Rule.run_oblivious (fuelFor state.rest.length)).rule .expression setting state nextId
  simp only [readExpression]
  change Alike _ (Rule.run _ _ _ _)
    (Rule.run (fuelFor (state.renumbered nextId).rest.length) _ _ (state.renumbered nextId)) at hread
  generalize Rule.run (fuelFor state.rest.length) .expression setting state = left at hread ⊢
  generalize Rule.run (fuelFor (state.renumbered nextId).rest.length) .expression setting
    (state.renumbered nextId) = right at hread ⊢
  cases hread with
  | ok after later hsame =>
      refine ⟨?_, later, rfl⟩
      simp only [seen, Except.map, Prod.mk.injEq, Except.ok.injEq]
      exact ⟨hsame, rfl, rfl⟩
  | error halt after later => cases halt <;> exact ⟨rfl, later, rfl⟩

theorem readExpressions_renumbered (setting : Setting) (count : Nat) (state : State)
    (nextId : NodeId) :
    (readExpressions setting count (state.renumbered nextId)).map seen =
      (readExpressions setting count state).map seen := by
  induction count generalizing state nextId with
  | zero => rfl
  | succ count ih =>
      obtain ⟨hseen, later, hlater⟩ := readExpression_renumbered setting state nextId
      simp only [readExpressions, List.map_cons, hseen, hlater, ih]

/-! ## The first end marker -/

/-- Whatever identities are given out, the same is seen of both token lists: as programs, and as
any number of expressions one after the other. -/
structure ReadAlike (tokens tokens' : List Token) : Prop where
  errors : ∀ nextId nextId', (parse tokens' nextId').errors = (parse tokens nextId).errors
  trees : ∀ nextId nextId', Stmt.eraseAll (parse tokens' nextId').statements =
    Stmt.eraseAll (parse tokens nextId).statements
  expressions : ∀ count nextId nextId',
    (readExpressions (.standard tokens') count (.start tokens' nextId')).map seen =
      (readExpressions (.standard tokens) count (.start tokens nextId)).map seen

/-- All that a parser sees of a token list is what comes before the first end marker, and the marker
itself. -/
theorem ReadAlike.of_eq {tokens tokens' : List Token} (hending : endMarker tokens' = endMarker tokens)
    (hread : tokens'.takeWhile (·.category ≠ .eof) = tokens.takeWhile (·.category ≠ .eof)) :
    ReadAlike tokens tokens' := by
  have hsetting : Setting.standard tokens' = Setting.standard tokens := by
    rw [Setting.standard, Setting.standard, hending]
  have hstart : ∀ nextId, State.start tokens' nextId = State.start tokens nextId := by
    intro nextId
    rw [State.start, State.start, hread]
  have hparse : ∀ nextId, parse tokens' nextId = parse tokens nextId := by
    intro nextId
    rw [parse, parse, hsetting, hstart]
  refine ⟨fun nextId nextId' => ?_, fun nextId nextId' => ?_, fun count nextId nextId' => ?_⟩
  · rw [hparse]
    exact (parse_renumbered tokens nextId nextId').1
  · rw [hparse]
    exact (parse_renumbered tokens nextId nextId').2
  · rw [hsetting, hstart]
    exact readExpressions_renumbered _ count (.start tokens nextId) nextId'

/-- Nothing behind the first end marker makes a difference. -/
theorem ReadAlike.append (hmarker : ∃ token ∈ tokens, token.category = .eof) (more : List Token) :
    ReadAlike tokens (tokens ++ more) := by
  obtain ⟨marker, hmem, heof⟩ := hmarker
  have hfound : (tokens.find? (·.category = .eof)).isSome :=
    List.find?_isSome.mpr ⟨marker, hmem, by simpa using heof⟩
  have hstops : (tokens.takeWhile (·.category ≠ .eof)).length ≠ tokens.length := by
    intro hlength
    rw [← (List.takeWhile_prefix _).eq_of_length hlength] at hmem
    have hread := List.mem_takeWhile_imp hmem
    simp [heof] at hread
  refine ReadAlike.of_eq ?_ ?_
  · rw [endMarker, endMarker, List.find?_append, Option.or_of_isSome hfound]
  · rw [List.takeWhile_append, if_neg hstops]

/-- A missing end marker makes no difference to one on line 1. -/
theorem ReadAlike.marked (hnone : ∀ token ∈ tokens, token.category ≠ .eof) :
    ReadAlike tokens (tokens ++ [⟨.eof, "", 1⟩]) := by
  refine ReadAlike.of_eq ?_ ?_
  · have hmissing : tokens.find? (·.category = .eof) = none :=
      List.find?_eq_none.mpr fun token htoken => by simpa using hnone token htoken
    rw [endMarker, endMarker, List.find?_append, hmissing]
    rfl
  · have hall : ∀ token ∈ tokens, decide (token.category ≠ .eof) = true :=
      fun token htoken => decide_eq_true (hnone token htoken)
    rw [List.takeWhile_append_of_pos hall, List.takeWhile_eq_self_iff.mpr hall]
    exact List.append_nil tokens

end Lox.Grammar
