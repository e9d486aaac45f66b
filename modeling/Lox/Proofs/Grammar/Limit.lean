import Lox.Proofs.Grammar.Advance
import Lox.Proofs.Grammar.Journal
import Lox.Token.Stream

/-!
# The limit of parameters and arguments

A list with too many parameters or arguments is read like any other. Every entry from the limit on is
noted as an error where it begins, before anything inside it is noted, and nothing else depends on the
limit.
-/

namespace Lox.Grammar

variable {α : Type} {setting : Setting} {fault : Nat → SyntaxFault} {before after : State}

/-! ## Slots -/

/-- A place in a list of parameters or arguments at which the reading of an entry begins: its index in
the list, the cursor there, and the errors that are noted until the entry ends. -/
structure Slot where
  index : Nat
  start : State
  inside : List SyntaxError

/-- The error of a slot that is one too many, at its first token. -/
def Slot.excess (slot : Slot) (setting : Setting) (fault : Nat → SyntaxFault) : List SyntaxError :=
  match setting.limit with
  | some limit =>
      if limit ≤ slot.index then
        [⟨fault limit, slot.start.rest.head?.getD setting.ending, slot.start.position⟩]
      else []
  | none => []

/-- The errors of a slot: that it is one too many comes before those inside it. -/
def Slot.errors (slot : Slot) (setting : Setting) (fault : Nat → SyntaxFault) :
    List SyntaxError :=
  slot.excess setting fault ++ slot.inside

/-- The reading of an entry gives an outcome in a slot, once the slot is checked against the limit. -/
structure Slot.Gives (slot : Slot) (setting : Setting) (fault : Nat → SyntaxFault)
    (entry : Nat → Parser α) (outcome : EStateM.Result Halt State α) : Prop where
  run : ∃ fuel,
    result (entry fuel) setting (slot.start.checked setting slot.index fault) = outcome
  errors : (endOf outcome).errors = slot.start.errors ++ slot.errors setting fault

theorem Slot.errors_checked (slot : Slot) (setting : Setting) (fault : Nat → SyntaxFault) :
    (slot.start.checked setting slot.index fault).errors =
      slot.start.errors ++ slot.excess setting fault := by
  unfold State.checked Slot.excess
  cases setting.limit with
  | none => simp
  | some limit => by_cases h : limit ≤ slot.index <;> simp [h, State.noted]

/-- An entry is read in some slot, whatever it is. -/
theorem exists_slot {entry : Nat → Parser α} (hentry : ∀ fuel, Advances (entry fuel))
    (setting : Setting) (fault : Nat → SyntaxFault) (fuel index : Nat) (start : State) :
    ∃ inside, (⟨index, start, inside⟩ : Slot).Gives setting fault entry
      (result (entry fuel) setting (start.checked setting index fault)) := by
  obtain ⟨inside, hinside⟩ := (hentry fuel setting (start.checked setting index fault)).errors
  refine ⟨inside, ⟨fuel, rfl⟩, ?_⟩
  rw [← hinside, Slot.errors_checked ⟨index, start, inside⟩ setting fault, List.append_assoc]
  rfl

/-! ## Lists -/

/-- A list with an entry more at its front. -/
def consTo (a : α) : EStateM.Result Halt State (List α) → EStateM.Result Halt State (List α)
  | .ok rest after => .ok (a :: rest) after
  | .error halt after => .error halt after

/-- From a cursor on, entries with commas between them are begun in slots one after the other, the
first with an index. The outcome is the list of all of them if no comma follows the last one, and the
fault of the last one if that is not understood. -/
inductive Lists (setting : Setting) (fault : Nat → SyntaxFault) (entry : Nat → Parser α) :
    (index : Nat) → (before : State) → List Slot → EStateM.Result Halt State (List α) → Prop where
  | empty {index : Nat} {before : State} : before.next? = some (.symbol .rightParen) →
      Lists setting fault entry index before [] (.ok [] before)
  | outOfFuel {index : Nat} {before : State} :
      Lists setting fault entry index before [] (.error .outOfFuel before)
  | halt {index : Nat} {before after : State} {inside : List SyntaxError} {halt : Halt} :
      (⟨index, before, inside⟩ : Slot).Gives setting fault entry (.error halt after) →
        Lists setting fault entry index before [⟨index, before, inside⟩] (.error halt after)
  | last {index : Nat} {before after : State} {inside : List SyntaxError} {a : α} :
      (⟨index, before, inside⟩ : Slot).Gives setting fault entry (.ok a after) →
        after.next? ≠ some (.symbol .comma) →
          Lists setting fault entry index before [⟨index, before, inside⟩] (.ok [a] after)
  | more {index : Nat} {before middle : State} {inside : List SyntaxError} {a : α}
      {slots : List Slot} {outcome : EStateM.Result Halt State (List α)} :
      (⟨index, before, inside⟩ : Slot).Gives setting fault entry (.ok a middle) →
        middle.next? = some (.symbol .comma) →
          Lists setting fault entry (index + 1) middle.skipped slots outcome →
            Lists setting fault entry index before (⟨index, before, inside⟩ :: slots)
              (consTo a outcome)

namespace Lists

variable {entry : Nat → Parser α} {index : Nat} {slots : List Slot}
  {outcome : EStateM.Result Halt State (List α)}

theorem endOf_consTo (a : α) (outcome : EStateM.Result Halt State (List α)) :
    endOf (consTo a outcome) = endOf outcome := by
  cases outcome <;> rfl

/-- The slots of a list are numbered. -/
theorem indices (h : Lists setting fault entry index before slots outcome) :
    slots.map Slot.index = List.range' index slots.length := by
  induction h with
  | empty | outOfFuel => rfl
  | halt | last => rfl
  | more _ _ _ ih => rw [List.map_cons, ih, List.length_cons, List.range'_succ]

/-- The errors of a list are those of its slots, one slot after the other. -/
theorem errors (h : Lists setting fault entry index before slots outcome) :
    (endOf outcome).errors =
      before.errors ++ slots.flatMap fun slot => slot.errors setting fault := by
  induction h with
  | empty | outOfFuel => simp
  | halt hgives | last hgives => simpa using hgives.errors
  | more hgives _ _ ih =>
      rw [endOf_consTo, ih, State.skipped_errors, List.flatMap_cons, ← List.append_assoc]
      exact congrArg (· ++ _) hgives.errors

/-- A list that is complete has an entry for each slot. -/
theorem length_eq (h : Lists setting fault entry index before slots outcome) {entries : List α}
    (hok : outcome = .ok entries after) : entries.length = slots.length := by
  induction h generalizing entries with
  | empty | last => cases hok; rfl
  | outOfFuel | halt => cases hok
  | @more _ _ _ _ a _ outcome _ _ _ ih =>
      cases outcome with
      | ok rest last =>
          cases hok
          exact congrArg (· + 1) (ih rfl)
      | error halt last => cases hok

/-- One slot after the other is too many, from the limit on. -/
theorem length_excess (h : Lists setting fault entry index before slots outcome) {limit : Nat}
    (hlimit : setting.limit = some limit) :
    (slots.flatMap fun slot => slot.excess setting fault).length =
      index + slots.length - max index limit := by
  have hslot : ∀ slot : Slot, (slot.excess setting fault).length =
      if limit ≤ slot.index then 1 else 0 := by
    intro slot
    rw [Slot.excess, hlimit]
    by_cases hslot : limit ≤ slot.index <;> simp [hslot]
  induction h with
  | empty | outOfFuel =>
      simp only [List.flatMap_nil, List.length_nil]
      omega
  | halt | last =>
      simp only [List.flatMap_singleton, hslot, List.length_singleton]
      split <;> omega
  | more _ _ _ ih =>
      simp only [List.flatMap_cons, List.length_append, hslot, ih, List.length_cons]
      split <;> omega

end Lists

/-- A reader of lists begins its entries in slots if it reads an entry, after the check against the
limit, and after a comma the rest of the list. -/
theorem exists_lists {entry : Nat → Parser α} (list : (fuel count : Nat) → Parser (List α))
    (hentry : ∀ fuel, Advances (entry fuel)) (hzero : ∀ count, list 0 count = throw .outOfFuel)
    (hsucc : ∀ fuel count, list (fuel + 1) count = do
      checkLimit count fault
      let a ← entry fuel
      if ← accepts (.symbol .comma) then
        let rest ← list fuel (count + 1)
        return a :: rest
      else
        return [a])
    (setting : Setting) (fuel count : Nat) (before : State) :
    ∃ slots, Lists setting fault entry count before slots
      (result (list fuel count) setting before) := by
  induction fuel generalizing count before with
  | zero =>
      rw [hzero]
      exact ⟨[], .outOfFuel⟩
  | succ fuel ih =>
      obtain ⟨inside, hgives⟩ := exists_slot hentry setting fault fuel count before
      rw [hsucc, bind_of_ok (result_checkLimit count fault)]
      generalize hread : result (entry fuel) setting (before.checked setting count fault) = read
        at hgives
      cases read with
      | error halt after =>
          rw [bind_of_error hread]
          exact ⟨_, .halt hgives⟩
      | ok a middle =>
          rw [bind_of_ok hread]
          by_cases hcomma : middle.next? = some (.symbol .comma)
          · rw [accepts_ite_of_next hcomma]
            obtain ⟨slots, hrest⟩ := ih (count + 1) middle.skipped
            have hmore := Lists.more hgives hcomma hrest
            cases houtcome : result (list fuel (count + 1)) setting middle.skipped with
            | ok rest after =>
                rw [bind_of_ok houtcome]
                rw [houtcome] at hmore
                exact ⟨_, hmore⟩
            | error halt after =>
                rw [bind_of_error houtcome]
                rw [houtcome] at hmore
                exact ⟨_, hmore⟩
          · rw [accepts_ite_of_not hcomma]
            exact ⟨_, .last hgives hcomma⟩

/-- An account of reading a list with a limit: which slots are begun, numbered from 0 on, that the
errors are those of the slots in order, that one slot after the other is too many from the limit on, and
that a complete list has the entries of all slots. -/
structure Accounts (setting : Setting) (limit : Nat) (fault : Nat → SyntaxFault)
    (entry : Nat → Parser α) (before : State) (slots : List Slot)
    (outcome : EStateM.Result Halt State (List α)) : Prop where
  lists : Lists setting fault entry 0 before slots outcome
  indices : slots.map Slot.index = List.range slots.length
  errors : (endOf outcome).errors =
    before.errors ++ slots.flatMap fun slot => slot.errors setting fault
  excess : (slots.flatMap fun slot => slot.excess setting fault).length = slots.length - limit
  complete : ∀ entries after, outcome = .ok entries after → entries.length = slots.length

theorem Lists.accounts {entry : Nat → Parser α} {slots : List Slot}
    {outcome : EStateM.Result Halt State (List α)}
    (h : Lists setting fault entry 0 before slots outcome) {limit : Nat}
    (hlimit : setting.limit = some limit) :
    Accounts setting limit fault entry before slots outcome where
  lists := h
  indices := by rw [h.indices, List.range_eq_range']
  errors := h.errors
  excess := by rw [h.length_excess hlimit, Nat.zero_add, Nat.zero_max]
  complete _ _ hok := h.length_eq hok

/-! ## Calls and declarations -/

theorem argumentList_accounts (setting : Setting) {limit : Nat} (hlimit : setting.limit = some limit)
    (fuel : Nat) (before : State) :
    ∃ slots, Accounts setting limit .tooManyArguments (fun fuel => Rule.run fuel .expression) before
      slots (result (argumentList (Rule.run fuel)) setting before) := by
  rw [argumentList, bind_of_ok (result_sees _)]
  by_cases hclosed : before.next? = some (.symbol .rightParen)
  · simp only [hclosed, decide_true, if_true]
    exact ⟨[], (Lists.empty hclosed).accounts hlimit⟩
  · simp only [hclosed, decide_false]
    obtain ⟨slots, hlists⟩ := exists_lists (fun fuel count => Rule.run fuel (.arguments count))
      (fun fuel => Rule.run_advances fuel .expression) (fun _ => rfl) (fun _ _ => rfl) setting fuel 0
      before
    exact ⟨slots, hlists.accounts hlimit⟩

theorem parameterList_accounts (setting : Setting) {limit : Nat}
    (hlimit : setting.limit = some limit) (fuel : Nat) (before : State) :
    ∃ slots, Accounts setting limit .tooManyParameters (fun _ => expectName .parameter) before slots
      (result (parameterList (Rule.run fuel)) setting before) := by
  rw [parameterList, bind_of_ok (result_sees _)]
  by_cases hclosed : before.next? = some (.symbol .rightParen)
  · simp only [hclosed, decide_true, if_true]
    exact ⟨[], (Lists.empty hclosed).accounts hlimit⟩
  · simp only [hclosed, decide_false]
    obtain ⟨slots, hlists⟩ := exists_lists (fun fuel count => Rule.run fuel (.parameters count))
      (fun _ => Advances.expect _ _) (fun _ => rfl) (fun _ _ => rfl) setting fuel 0 before
    exact ⟨slots, hlists.accounts hlimit⟩

/-- A call that is complete has all the arguments that were read. -/
theorem suffixes_call {fuel : Nat} {left tree : Expr}
    (hopen : before.next? = some (.symbol .leftParen))
    (hok : result (Rule.run (fuel + 1) (.suffixes left)) setting before = .ok tree after) :
    ∃ arguments closing id paren called,
      result (argumentList (Rule.run fuel)) setting before.skipped = .ok arguments closing ∧
      result (Rule.run fuel (.suffixes (.call id left paren arguments))) setting called =
        .ok tree after := by
  change result (suffixes (Rule.run fuel) left) setting before = _ at hok
  rw [suffixes, accepts_ite_of_next hopen] at hok
  obtain ⟨arguments, closing, harguments, hok⟩ := bind_eq_ok.mp hok
  obtain ⟨paren, closed, -, hok⟩ := bind_eq_ok.mp hok
  obtain ⟨id, called, -, hok⟩ := bind_eq_ok.mp hok
  exact ⟨arguments, closing, id, paren, called, harguments, hok⟩

/-- A function that is complete has all the parameters that were read. -/
theorem function_parameters {fuel : Nat} {form : FunctionForm} {declaration : FunctionDecl}
    (hok : result (function (Rule.run fuel) form) setting before = .ok declaration after) :
    ∃ opened closing,
      result (parameterList (Rule.run fuel)) setting opened =
        .ok declaration.parameters closing := by
  obtain ⟨name, named, -, hok⟩ := bind_eq_ok.mp hok
  obtain ⟨_, opened, -, hok⟩ := bind_eq_ok.mp hok
  obtain ⟨parameters, closing, hparameters, hok⟩ := bind_eq_ok.mp hok
  obtain ⟨_, _, -, hok⟩ := bind_eq_ok.mp hok
  obtain ⟨_, _, -, hok⟩ := bind_eq_ok.mp hok
  obtain ⟨_, _, -, hok⟩ := bind_eq_ok.mp hok
  cases hok
  exact ⟨opened, closing, hparameters⟩

/-! ## The limit -/

/-- The limit changes no tree and no cursor, and of the errors none but its own. What is read by a rule
with and without the limit is seen from one marked reading, also when the rule gives up; so are whole
programs, and without the errors of the limit those are left that are found if there is none. In a list
of arguments or parameters, complete or not, every slot from the limit on has one error, at its first
token and before those inside; and a call or a function that is complete has the entries of all
slots. -/
theorem limit_is_advisory (ending : Token) :
    (∀ fuel rule limit before,
      Shows limit (result (Rule.run fuel rule) ⟨ending, limit⟩ (before.seen limit))
        (result (Rule.runMarked fuel rule) ⟨ending, none⟩ before)) ∧
    (∀ tokens nextId,
      let marked := readMarked (endMarker tokens) (.start tokens nextId)
      let unlimited := readProgram ⟨endMarker tokens, none⟩ (.start tokens nextId)
      (parse tokens nextId).statements = unlimited.statements ∧
        (parse tokens nextId).nextId = unlimited.nextId ∧
        unlimited.errors = (parse tokens nextId).errors.filterMap (·.under none) ∧
        (parse tokens nextId).errors = marked.errors.filterMap (·.under (some entryLimit)) ∧
        unlimited.errors = marked.errors.filterMap (·.under none)) ∧
    (∀ fuel before, ∃ slots,
      Accounts ⟨ending, some entryLimit⟩ entryLimit .tooManyArguments
        (fun fuel => Rule.run fuel .expression) before slots
        (result (argumentList (Rule.run fuel)) ⟨ending, some entryLimit⟩ before)) ∧
    (∀ fuel before, ∃ slots,
      Accounts ⟨ending, some entryLimit⟩ entryLimit .tooManyParameters
        (fun _ => expectName .parameter) before slots
        (result (parameterList (Rule.run fuel)) ⟨ending, some entryLimit⟩ before)) ∧
    (∀ fuel left before tree after, before.next? = some (.symbol .leftParen) →
      result (Rule.run (fuel + 1) (.suffixes left)) ⟨ending, some entryLimit⟩ before =
          .ok tree after →
        ∃ arguments closing id paren called,
          result (argumentList (Rule.run fuel)) ⟨ending, some entryLimit⟩ before.skipped =
              .ok arguments closing ∧
            result (Rule.run fuel (.suffixes (.call id left paren arguments)))
              ⟨ending, some entryLimit⟩ called = .ok tree after) ∧
    ∀ fuel form before declaration after,
      result (function (Rule.run fuel) form) ⟨ending, some entryLimit⟩ before =
          .ok declaration after →
        ∃ opened closing,
          result (parameterList (Rule.run fuel)) ⟨ending, some entryLimit⟩ opened =
            .ok declaration.parameters closing := by
  refine ⟨fun fuel rule limit before => Rule.run_seen fuel rule ending limit before,
    fun tokens nextId => ?_, argumentList_accounts _ rfl, parameterList_accounts _ rfl,
    fun fuel left before tree after => suffixes_call,
    fun fuel form before declaration after => function_parameters⟩
  intro marked unlimited
  have hlimited : parse tokens nextId = _ :=
    readProgram_seen (endMarker tokens) (some entryLimit) (.start tokens nextId)
  have hunlimited : unlimited = _ :=
    readProgram_seen (endMarker tokens) none (.start tokens nextId)
  rw [hlimited, hunlimited]
  refine ⟨rfl, rfl, ?_, rfl, rfl⟩
  simp only [List.filterMap_filterMap, SyntaxError.under_none_of_under]

-- The ninth argument is noted before the fault inside it, and both before the one after the list.
example : (parse (tokens "f(1, 2, 3, 4, 5, 6, 7, 8, 0 = 9) 10;") 0).errors.map
    (fun error => (error.fault.message, error.position)) =
      [("Cannot have more than 8 arguments.", 18), ("Invalid assignment target.", 19),
        ("Expect ';' after expression.", 22)] := by decide +kernel

end Lox.Grammar
