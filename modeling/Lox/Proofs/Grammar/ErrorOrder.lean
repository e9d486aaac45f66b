import Lox.Proofs.Grammar.Advance
import Lox.Proofs.Token.Lines
import Lox.Proofs.Token.Seam

/-!
# The order of syntax errors

An error is noted where the cursor stands, so that errors come in the order of their tokens. There
is one exception: that no value can be assigned to the left side of an equals sign is noted when
the right side has been read, behind the errors that were found in there.
-/

namespace Lox.Grammar

variable {α β : Type}

/-- The second error does not point before the first one, unless it is a target that nothing can
be assigned to. -/
def InOrder (earlier later : SyntaxError) : Prop :=
  earlier.position ≤ later.position ∨ later.fault = .invalidAssignmentTarget

/-- The token at a position, which from the end on is the end marker. -/
def tokenAt (text : List Token) (ending : Token) (position : Nat) : Token :=
  text[position]?.getD ending

/-- An error points at a token of the text that the cursor has reached. -/
structure Reached (text : List Token) (ending : Token) (state : State) (error : SyntaxError) :
    Prop where
  position : error.position ≤ state.position
  token : error.token = tokenAt text ending error.position

/-- A cursor in a text whose errors are in order. -/
structure Orderly (text : List Token) (ending : Token) (state : State) : Prop where
  rest : state.rest = text.drop state.position
  position : state.position ≤ text.length
  reached : ∀ error ∈ state.errors, Reached text ending state error
  ordered : state.errors.Pairwise InOrder

section Cursor

variable {text : List Token} {ending : Token} {state before after : State} {error : SyntaxError}

theorem Advance.position_le (h : Advance before after) : before.position ≤ after.position := by
  obtain ⟨tokens, -, hposition⟩ := h.read
  rw [hposition]
  exact Nat.le_add_right _ _

theorem Reached.advance (h : Reached text ending before error) (hadvance : Advance before after) :
    Reached text ending after error :=
  ⟨Nat.le_trans h.position hadvance.position_le, h.token⟩

namespace Orderly

theorem start (tokens : List Token) (nextId : NodeId) :
    Orderly (tokens.takeWhile (·.category ≠ .eof)) ending (.start tokens nextId) :=
  ⟨rfl, Nat.zero_le _, by simp [State.start], by simp [State.start]⟩

/-- Moving on without a further error. -/
theorem advance (h : Orderly text ending before) (hadvance : Advance before after)
    (herrors : after.errors = before.errors) : Orderly text ending after := by
  obtain ⟨tokens, hrest, hposition⟩ := hadvance.read
  have hdrop : tokens ++ after.rest = text.drop before.position := by rw [← hrest, h.rest]
  refine ⟨?_, ?_, ?_, by rw [herrors]; exact h.ordered⟩
  · rw [hposition, ← List.drop_drop, ← hdrop, List.drop_left]
  · have hlength := congrArg List.length hdrop
    have hposition' := h.position
    rw [List.length_append, List.length_drop] at hlength
    omega
  · rw [herrors]
    exact fun error herror => (h.reached error herror).advance hadvance

/-- Noting an error that the cursor has reached, and that is in order after all others. -/
theorem noted (h : Orderly text ending state) (herror : Reached text ending state error)
    (horder : ∀ earlier ∈ state.errors, InOrder earlier error) :
    Orderly text ending (state.noted error) := by
  refine ⟨h.rest, h.position, fun other hother => ?_, ?_⟩
  · rcases List.mem_append.mp hother with hother | hother
    · exact ⟨(h.reached other hother).position, (h.reached other hother).token⟩
    · rw [List.mem_singleton.mp hother]
      exact ⟨herror.position, herror.token⟩
  · exact List.pairwise_append.mpr ⟨h.ordered, List.pairwise_singleton _ _,
      fun earlier hearlier other hother => by
        rw [List.mem_singleton.mp hother]
        exact horder earlier hearlier⟩

theorem of_noted (h : Orderly text ending (state.noted error)) : Orderly text ending state := by
  refine ⟨h.rest, h.position, fun other hother => ?_, (List.pairwise_append.mp h.ordered).1⟩
  have hreached := h.reached other (List.mem_append_left _ hother)
  exact ⟨hreached.position, hreached.token⟩

/-- A fault at the next token is at the cursor. -/
theorem reached_here (h : Orderly text ending state) (fault : SyntaxFault) :
    Reached text ending state ⟨fault, state.rest.head?.getD ending, state.position⟩ :=
  ⟨Nat.le_refl _, by rw [tokenAt, h.rest, List.head?_drop]⟩

theorem noted_here (h : Orderly text ending state) (fault : SyntaxFault) :
    Orderly text ending (state.noted ⟨fault, state.rest.head?.getD ending, state.position⟩) :=
  h.noted (h.reached_here fault) fun earlier hearlier =>
    .inl (h.reached earlier hearlier).position

theorem skipped (h : Orderly text ending state) : Orderly text ending state.skipped :=
  h.advance (Advance.skipped state) (State.skipped_errors state)

theorem synchronized (h : Orderly text ending state) : Orderly text ending state.synchronized := by
  refine h.advance (Advance.synchronized state) ?_
  cases hrest : state.rest <;> simp [State.synchronized, hrest]

end Orderly

end Cursor

/-! ## Parsers that keep errors in order -/

/-- The cursor with a fault noted, if this is why reading stopped. -/
def Halt.settle : Halt → State → State
  | .fault error, state => state.noted error
  | .outOfFuel, state => state

/-- The cursor where a result leaves it, with the fault noted if there is one. -/
def settled : EStateM.Result Halt State α → State
  | .ok _ state => state
  | .error halt state => halt.settle state

/-- The parser notes errors in order, and the fault with which it gives up would be in order too. -/
def Orders (parser : Parser α) : Prop :=
  ∀ text setting before, Orderly text setting.ending before →
    Orderly text setting.ending (settled (result parser setting before))

namespace Orders

variable {text : List Token} {setting : Setting} {before after : State}

theorem of_ok {parser : Parser α} (h : Orders parser) {a : α}
    (horderly : Orderly text setting.ending before)
    (hok : result parser setting before = .ok a after) : Orderly text setting.ending after := by
  have := h text setting before horderly
  rwa [hok] at this

theorem of_error {parser : Parser α} (h : Orders parser) {halt : Halt}
    (horderly : Orderly text setting.ending before)
    (herror : result parser setting before = .error halt after) :
    Orderly text setting.ending (halt.settle after) := by
  have := h text setting before horderly
  rwa [herror] at this

theorem pure (a : α) : Orders (Pure.pure a) :=
  fun _ _ _ horderly => horderly

theorem bind {first : Parser α} {second : α → Parser β} (hfirst : Orders first)
    (hsecond : ∀ a, Orders (second a)) : Orders (first >>= second) := by
  intro text setting before horderly
  cases h : result first setting before with
  | ok a middle =>
      rw [bind_of_ok h]
      exact hsecond a text setting middle (hfirst.of_ok horderly h)
  | error halt middle =>
      rw [bind_of_error h]
      exact hfirst.of_error horderly h

/-! ## The cursor's operations -/

theorem peek : Orders Grammar.peek := fun _ _ _ horderly => horderly

theorem atEnd : Orders Grammar.atEnd := fun _ _ _ horderly => horderly

theorem sees (category : Category) : Orders (Grammar.sees category) := fun _ _ _ horderly =>
  horderly

theorem skip : Orders Grammar.skip := by
  intro text setting before horderly
  rw [result_skip]
  exact horderly.skipped

theorem freshId : Orders Grammar.freshId := fun _ _ before horderly =>
  horderly.advance (Advance.renewed before) rfl

theorem giveUp (fault : SyntaxFault) : Orders (Grammar.giveUp fault : Parser α) :=
  fun _ _ _ horderly => horderly.noted_here fault

theorem checkLimit (count : Nat) (fault : Nat → SyntaxFault) :
    Orders (Grammar.checkLimit count fault) := by
  intro text setting before horderly
  rw [result_checkLimit]
  change Orderly text setting.ending (before.checked setting count fault)
  unfold State.checked
  cases setting.limit with
  | none => exact horderly
  | some limit =>
      by_cases h : limit ≤ count
      · simpa [h] using horderly.noted_here (fault limit)
      · simpa [h] using horderly

/-- A target that nothing can be assigned to may be noted at any later cursor. -/
theorem note_target {error : SyntaxError} (hfault : error.fault = .invalidAssignmentTarget)
    (horderly : Orderly text setting.ending before)
    (hreached : Reached text setting.ending before error) (a : α) :
    Orderly text setting.ending
      (settled (result (do note error; return a) setting before)) :=
  horderly.noted hreached fun _ _ => .inr hfault

/-- Keeping errors in order is a congruence. -/
def congruence : Congruence where
  Rel parser _ := Orders parser
  pure := pure
  bind hfirst hsecond := hfirst.bind hsecond
  peek := peek
  atEnd := atEnd
  sees := sees
  skip := skip
  freshId := freshId
  giveUp _ := giveUp _

end Orders

/-! ## Rules that keep errors in order -/

section

variable {sub : Readers} (hsub : ∀ rule, Orders (sub rule))

include hsub

theorem expression_orders (hadvances : ∀ rule, Advances (sub rule)) : Orders (expression sub) := by
  refine (hsub _).bind fun target text setting before horderly => ?_
  rw [bind_of_ok (result_faultHere _)]
  by_cases hequal : before.next? = some (.symbol .equal)
  · rw [accepts_ite_of_next hequal]
    -- The fault of the target is fixed here, and noted only after the right side.
    have hreached := (horderly.reached_here .invalidAssignmentTarget).advance
      (Advance.skipped before)
    cases hvalue : result (sub .expression) setting before.skipped with
    | error halt after =>
        rw [bind_of_error hvalue]
        exact (hsub .expression).of_error horderly.skipped hvalue
    | ok value after =>
        rw [bind_of_ok hvalue]
        have hafter := (hsub .expression).of_ok horderly.skipped hvalue
        have hlate := hreached.advance ((hadvances .expression).of_ok hvalue)
        cases target with
        | var id name =>
            exact (Orders.freshId.bind fun _ => Orders.pure _) text setting after hafter
        | get id object name =>
            exact (Orders.freshId.bind fun _ => Orders.pure _) text setting after hafter
        | _ => exact Orders.note_target rfl hafter hlate _
  · rw [accepts_ite_of_not hequal]
    exact horderly

theorem declaration_orders : Orders (declaration sub) := by
  intro text setting before horderly
  have hplain : Orders (some <$> plainDeclaration sub) :=
    Orders.congruence.map some (Orders.congruence.plainDeclaration sub hsub)
  rw [declaration, result_tryCatch]
  cases h : result (some <$> plainDeclaration sub) setting before with
  | ok statement after => exact hplain.of_ok horderly h
  | error halt after =>
      have hafter := hplain.of_error horderly h
      cases halt with
      | outOfFuel => exact hafter
      | fault error =>
          -- The fault is noted where the declaration gave up, before any token is passed over.
          change Orderly text setting.ending (settled (result
            (do note error; synchronize; return none : Parser (Option Stmt)) setting after))
          rw [bind_of_ok (result_note error), bind_of_ok result_synchronize]
          exact hafter.synchronized

/-- Reading by a rule notes errors in order if reading by the rules that it refers to does. -/
theorem Rule.step_orders (hadvances : ∀ rule, Advances (sub rule)) (rule : Rule) :
    Orders (rule.step sub) := by
  cases rule with
  | declaration => exact declaration_orders hsub
  | expression => exact expression_orders hsub hadvances
  | parameters count => exact Orders.congruence.parameters sub hsub (.checkLimit _ _)
  | arguments count => exact Orders.congruence.arguments sub hsub (.checkLimit _ _)
  | _ => exact Orders.congruence.step sub hsub True.intro

end

/-- However many references to rules are allowed, errors are noted in order. -/
theorem Rule.run_orders (fuel : Nat) (rule : Rule) : Orders (Rule.run fuel rule) := by
  induction fuel generalizing rule with
  | zero => exact fun _ _ _ horderly => horderly
  | succ fuel ih => exact rule.step_orders ih (Rule.run_advances fuel)

/-! ## Whole programs -/

/-- The errors of a program are those of an orderly cursor. -/
theorem parse_orderly (tokens : List Token) (nextId : NodeId) :
    ∃ last : State, (parse tokens nextId).errors = last.errors ∧
      Orderly (tokens.takeWhile (·.category ≠ .eof)) (endMarker tokens) last := by
  let start := State.start tokens nextId
  have horderly := Rule.run_orders (fuelFor start.rest.length) (.declarations false) _
    (.standard tokens) start (Orderly.start tokens nextId)
  cases hresult : result (Rule.run (fuelFor start.rest.length) (.declarations false))
      (.standard tokens) start with
  | ok statements last =>
      rw [hresult] at horderly
      refine ⟨last, ?_, horderly⟩
      rw [result] at hresult
      rw [parse, readProgram, hresult]
  | error halt last =>
      rw [hresult] at horderly
      refine ⟨last, ?_, ?_⟩
      · rw [result] at hresult
        rw [parse, readProgram, hresult]
      · cases halt with
        | outOfFuel => exact horderly
        | fault error => exact Orderly.of_noted horderly

/-- Every syntax error points at the token at its position, and no error points before an earlier
one unless it is a target that nothing can be assigned to. -/
theorem syntax_errors_in_order (tokens : List Token) (nextId : NodeId) :
    (parse tokens nextId).errors.Pairwise InOrder ∧
      ∀ error ∈ (parse tokens nextId).errors,
        error.position ≤ (tokens.takeWhile (·.category ≠ .eof)).length ∧
        error.token =
          tokenAt (tokens.takeWhile (·.category ≠ .eof)) (endMarker tokens) error.position := by
  obtain ⟨last, herrors, horderly⟩ := parse_orderly tokens nextId
  rw [herrors]
  refine ⟨horderly.ordered, fun error herror => ?_⟩
  have hreached := horderly.reached error herror
  exact ⟨Nat.le_trans hreached.position horderly.position, hreached.token⟩

/-- A text whose assignments to a constant are faulty one inside the other. -/
def nestedTargets : String := "nil=\nnil=nil;"

/-- Of two faulty targets the inner one is noted first, though it is further on in the text. -/
theorem nested_targets_out_of_order :
    (parse (tokens nestedTargets) 0).errors.map (fun error => (error.position, error.token.line)) =
      [(3, 2), (1, 1)] := by
  decide +kernel

/-! ## Lines -/

/-- The lines of a text's tokens never decrease. -/
theorem tokens_lines_ordered (source : String) :
    (tokens source).Pairwise fun first second => first.line ≤ second.line := by
  refine (itemsFrom_lines_ordered 1 (pieces source.toList)).filterMap Item.token? ?_
  intro first second hle token htoken later hlater
  cases first with
  | token =>
      cases second with
      | token =>
          cases htoken
          cases hlater
          exact hle
      | error => cases hlater
  | error => cases htoken

/-- A text's tokens are those before the end marker, and the end marker. -/
theorem tokens_eq_append (source : String) :
    tokens source =
      (tokens source).takeWhile (·.category ≠ .eof) ++ [endMarker (tokens source)] := by
  let ending : Token :=
    ⟨.eof, "", 1 + lineBreaks ((pieces source.toList).flatMap Piece.text)⟩
  have heq : tokens source = (tokens source).takeWhile (·.category ≠ .eof) ++ [ending] := by
    have hitems := congrArg (List.filterMap Item.token?) (itemsFrom_eq 1 (pieces source.toList))
    rw [List.filterMap_append] at hitems
    rw [takeWhile_tokens]
    exact hitems
  have hbody : ((tokens source).takeWhile (·.category ≠ .eof)).find? (·.category = .eof) = none :=
    List.find?_eq_none.mpr fun token htoken => by
      simpa using List.mem_takeWhile_imp htoken
  have hending : endMarker (tokens source) = ending := by
    rw [endMarker, heq, List.find?_append, hbody]
    rfl
  rw [hending]
  exact heq

/-- The lines of a text's syntax errors never decrease, but for targets that nothing can be
assigned to. -/
theorem syntax_errors_in_line_order (source : String) (nextId : NodeId) :
    (parse (tokens source) nextId).errors.Pairwise fun earlier later =>
      earlier.token.line ≤ later.token.line ∨ later.fault = .invalidAssignmentTarget := by
  obtain ⟨last, herrors, horderly⟩ := parse_orderly (tokens source) nextId
  have htoken {error : SyntaxError} (herror : error ∈ last.errors) :
      (tokens source)[error.position]? = some error.token := by
    have hreached := horderly.reached error herror
    have hposition := Nat.le_trans hreached.position horderly.position
    rw [tokens_eq_append, List.getElem?_append, hreached.token, tokenAt]
    split
    · next hlt => rw [List.getElem?_eq_getElem hlt]; rfl
    · next hge =>
        have hlength : error.position =
            ((tokens source).takeWhile (·.category ≠ .eof)).length := by omega
        rw [hlength, Nat.sub_self, List.getElem?_eq_none (Nat.le_refl _)]
        rfl
  rw [herrors]
  refine horderly.ordered.imp_of_mem fun {earlier later} hearlier hlater horder => ?_
  refine horder.imp_left fun hle => ?_
  obtain ⟨hearlier', hfirst⟩ := List.getElem?_eq_some_iff.mp (htoken hearlier)
  obtain ⟨hlater', hsecond⟩ := List.getElem?_eq_some_iff.mp (htoken hlater)
  rcases Nat.eq_or_lt_of_le hle with heq | hlt
  · simp only [heq] at hfirst
    rw [← hfirst, hsecond]
  · have := List.pairwise_iff_getElem.mp (tokens_lines_ordered source) _ _ hearlier' hlater' hlt
    rwa [hfirst, hsecond] at this

end Lox.Grammar
