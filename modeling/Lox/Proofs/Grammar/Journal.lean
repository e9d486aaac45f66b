import Lox.Proofs.Grammar.Congruence

/-!
# Reading with a journal

A parser without a limit may keep a journal: in it, among the errors, the beginning of every parameter
and of every argument is marked with the index that it has in its list. What a parser with a limit
does is seen from the journal. It reads the same, and its errors are the entries of the journal, but
of the marks only those with an index from the limit on.
-/

namespace Lox

/-! ## Entries of a journal -/

/-- What an entry of a journal is under a limit. The mark of a parameter or of an argument is an error
if its index is not below the limit, and else nothing; every other fault is what it is. -/
def SyntaxFault.under (limit : Option Nat) : SyntaxFault → Option SyntaxFault
  | tooManyParameters index => (limit.filter (· ≤ index)).map tooManyParameters
  | tooManyArguments index => (limit.filter (· ≤ index)).map tooManyArguments
  | fault => some fault

/-- The error that an entry of a journal is under a limit, at the same token. -/
def SyntaxError.under (limit : Option Nat) (entry : SyntaxError) : Option SyntaxError :=
  (entry.fault.under limit).map fun fault => { entry with fault := fault }

/-- Without the errors of a limit, an entry is what it is without a limit. -/
theorem SyntaxError.under_none_of_under (limit : Option Nat) (entry : SyntaxError) :
    (entry.under limit).bind (·.under none) = entry.under none := by
  obtain ⟨fault, token, position⟩ := entry
  cases fault with
  | tooManyParameters index | tooManyArguments index =>
      cases h : limit.filter (· ≤ index) <;>
        simp [SyntaxError.under, SyntaxFault.under, h]
  | _ => rfl

/-- A fault that does not depend on the limit. -/
def SyntaxFault.Plain (fault : SyntaxFault) : Prop :=
  ∀ limit, fault.under limit = some fault

theorem SyntaxFault.Expects.plain {fault : SyntaxFault} (h : fault.Expects) : fault.Plain := by
  cases fault with
  | expectedName | expectedSymbol | expectedExpression => exact fun _ => rfl
  | invalidAssignmentTarget | tooManyParameters | tooManyArguments => exact h.elim

/-- The mark of a parameter or of an argument, which has an index. -/
def SyntaxFault.Marks (mark : Nat → SyntaxFault) : Prop :=
  ∀ index limit, (mark index).under limit = (limit.filter (· ≤ index)).map mark

namespace Grammar

variable {α β : Type}

/-! ## Marked reading -/

/-- Marks the beginning of a parameter or of an argument. -/
def Rule.mark : Rule → Parser Unit
  | .parameters count => do note (← faultHere (.tooManyParameters count))
  | .arguments count => do note (← faultHere (.tooManyArguments count))
  | _ => return

/-- Reads by a rule, and marks where each parameter and each argument begins. -/
def Rule.runMarked : (fuel : Nat) → Readers
  | 0, _ => throw .outOfFuel
  | fuel + 1, rule => do
      rule.mark
      rule.step (runMarked fuel)

/-- Reads a program from a cursor without a limit, and keeps a journal. -/
def readMarked (ending : Token) (start : State) : Program :=
  match Rule.runMarked (fuelFor start.rest.length) (.declarations false) ⟨ending, none⟩ start with
  | .ok statements state => ⟨statements, state.errors, state.nextId⟩
  | .error _ state => ⟨[], state.errors, state.nextId⟩

/-! ## What is seen under a limit -/

/-- A cursor whose errors are those that its journal has under a limit. -/
def State.seen (limit : Option Nat) (state : State) : State :=
  { state with errors := state.errors.filterMap (·.under limit) }

namespace State

variable (limit : Option Nat) (state : State)

theorem seen_skipped : (state.seen limit).skipped = state.skipped.seen limit := by
  cases h : state.rest <;> simp [skipped, seen, h]

theorem seen_synchronized : (state.seen limit).synchronized = state.synchronized.seen limit := by
  cases h : state.rest <;> simp [synchronized, seen, h]

theorem seen_noted {error : SyntaxError} (h : error.fault.Plain) :
    (state.seen limit).noted error = (state.noted error).seen limit := by
  have herror : error.under limit = some error := by rw [SyntaxError.under, h limit, Option.map_some]
  simp [noted, seen, herror]

/-- Under a limit, a mark is the error of the limit. -/
theorem seen_marked {mark : Nat → SyntaxFault} (h : SyntaxFault.Marks mark) (ending : Token)
    (count : Nat) :
    (state.seen limit).checked ⟨ending, limit⟩ count mark =
      (state.noted ⟨mark count, state.rest.head?.getD ending, state.position⟩).seen limit := by
  cases limit with
  | none => simp [checked, noted, seen, SyntaxError.under, h count]
  | some limit =>
      by_cases hcount : limit ≤ count <;>
        simp [checked, noted, seen, SyntaxError.under, h count, Option.filter, hcount]

end State

/-- Results of a parser with a limit and of one that keeps a journal: the same trees or the same fault,
at the same cursor, with the errors that the journal has under the limit. -/
inductive Shows (limit : Option Nat) :
    EStateM.Result Halt State α → EStateM.Result Halt State α → Prop where
  | ok (a : α) (after : State) : Shows limit (.ok a (after.seen limit)) (.ok a after)
  | fault {error : SyntaxError} (after : State) : error.fault.Plain →
      Shows limit (.error (.fault error) (after.seen limit)) (.error (.fault error) after)
  | outOfFuel (after : State) :
      Shows limit (.error .outOfFuel (after.seen limit)) (.error .outOfFuel after)

/-- Under every limit, what the first parser does is seen from the journal that the second one keeps. -/
def Seen (parser marked : Parser α) : Prop :=
  ∀ ending limit before, Shows limit (result parser ⟨ending, limit⟩ (before.seen limit))
    (result marked ⟨ending, none⟩ before)

namespace Seen

variable {first first' : Parser α} {second second' : α → Parser β}

theorem pure (a : α) : Seen (Pure.pure a) (Pure.pure a) :=
  fun _ _ before => .ok a before

theorem bind (hfirst : Seen first first') (hsecond : ∀ a, Seen (second a) (second' a)) :
    Seen (first >>= second) (first' >>= second') := by
  intro ending limit before
  have hread := hfirst ending limit before
  generalize hleft : result first ⟨ending, limit⟩ (before.seen limit) = left at hread
  generalize hright : result first' ⟨ending, none⟩ before = right at hread
  cases hread with
  | ok a after =>
      rw [bind_of_ok hleft, bind_of_ok hright]
      exact hsecond a ending limit after
  | fault after hplain =>
      rw [bind_of_error hleft, bind_of_error hright]
      exact .fault after hplain
  | outOfFuel after =>
      rw [bind_of_error hleft, bind_of_error hright]
      exact .outOfFuel after

/-! ### The cursor's operations -/

theorem peek : Seen Grammar.peek Grammar.peek :=
  fun _ _ before => .ok _ before

theorem atEnd : Seen Grammar.atEnd Grammar.atEnd :=
  fun _ _ before => .ok _ before

theorem sees (category : Category) : Seen (Grammar.sees category) (Grammar.sees category) :=
  fun _ _ before => .ok _ before

theorem skip : Seen Grammar.skip Grammar.skip := by
  intro ending limit before
  rw [result_skip, result_skip, State.seen_skipped]
  exact .ok _ _

theorem freshId : Seen Grammar.freshId Grammar.freshId :=
  fun _ _ before => .ok before.nextId before.renewed

theorem giveUp {fault : SyntaxFault} (h : fault.Plain) :
    Seen (Grammar.giveUp fault : Parser α) (Grammar.giveUp fault) :=
  fun _ _ before => .fault before h

theorem note {error : SyntaxError} (h : error.fault.Plain) :
    Seen (Grammar.note error) (Grammar.note error) := by
  intro ending limit before
  rw [result_note, result_note, State.seen_noted limit before h]
  exact .ok _ _

/-- What was noticed at a cursor may be noted later if it does not depend on the limit. -/
theorem noticed {fault : SyntaxFault} (h : fault.Plain) {second second' : SyntaxError → Parser β}
    (hsecond : ∀ error, error.fault.Plain → Seen (second error) (second' error)) :
    Seen (faultHere fault >>= second) (faultHere fault >>= second') := by
  intro ending limit before
  rw [bind_of_ok (result_faultHere fault), bind_of_ok (result_faultHere fault)]
  exact hsecond ⟨fault, _, _⟩ h ending limit before

theorem synchronize : Seen Grammar.synchronize Grammar.synchronize := by
  intro ending limit before
  rw [result_synchronize, result_synchronize, State.seen_synchronized]
  exact .ok _ _

/-- The check against the limit is seen from the mark. -/
theorem slot {mark : Nat → SyntaxFault} (h : SyntaxFault.Marks mark) (count : Nat)
    {rest rest' : Parser β} (hrest : Seen rest rest') :
    Seen (checkLimit count mark >>= fun _ => rest)
      (do
        Grammar.note (← faultHere (mark count))
        checkLimit count mark
        rest') := by
  intro ending limit before
  rw [bind_of_ok (result_checkLimit count mark), State.seen_marked limit before h,
    bind_of_ok (result_faultHere _), bind_of_ok (result_note _),
    bind_of_ok (result_checkLimit count mark)]
  exact hrest ending limit _

/-- Being seen from a journal is a congruence. -/
def congruence : Congruence where
  Rel := Seen
  pure := pure
  bind := bind
  peek := peek
  atEnd := atEnd
  sees := sees
  skip := skip
  freshId := freshId
  giveUp h := giveUp h.plain

end Seen

/-! ## The rules -/

section

variable {sub sub' : Readers} (hsub : ∀ rule, Seen (sub rule) (sub' rule))

include hsub

theorem expression_seen : Seen (expression sub) (expression sub') := by
  let R := Seen.congruence
  refine (hsub (.operation _)).bind fun target => Seen.noticed (fun _ => rfl) fun invalid hinvalid =>
    R.bind (R.accepts _) fun assigned => R.ite ?_ (Seen.pure _)
  refine (hsub .expression).bind fun value => ?_
  cases target with
  | var id name => exact Seen.freshId.bind fun _ => Seen.pure _
  | get id object name => exact Seen.freshId.bind fun _ => Seen.pure _
  | _ => exact (Seen.note hinvalid).bind fun _ => Seen.pure _

theorem arguments_seen (count : Nat) :
    Seen (arguments sub count)
      (do
        (Rule.arguments count).mark
        arguments sub' count) := by
  let R := Seen.congruence
  refine Seen.slot (fun _ _ => rfl) count <| (hsub .expression).bind fun argument =>
    R.bind (R.accepts _) fun more => R.ite ?_ (Seen.pure _)
  exact (hsub (.arguments _)).bind fun rest => Seen.pure _

theorem parameters_seen (count : Nat) :
    Seen (parameters sub count)
      (do
        (Rule.parameters count).mark
        parameters sub' count) := by
  let R := Seen.congruence
  refine Seen.slot (fun _ _ => rfl) count <| R.bind (R.expectName _) fun name =>
    R.bind (R.accepts _) fun more => R.ite ?_ (Seen.pure _)
  exact (hsub (.parameters _)).bind fun rest => Seen.pure _

/-- A fault that ends a declaration does not depend on the limit, and neither does going on after it. -/
theorem declaration_seen : Seen (declaration sub) (declaration sub') := by
  intro ending limit before
  have hplain : Seen (some <$> plainDeclaration sub) (some <$> plainDeclaration sub') :=
    Seen.congruence.map some (Seen.congruence.plainDeclaration sub' hsub)
  replace hplain := hplain ending limit before
  rw [declaration, declaration, result_tryCatch, result_tryCatch]
  generalize result (some <$> plainDeclaration sub) ⟨ending, limit⟩ (before.seen limit) = left
    at hplain ⊢
  generalize result (some <$> plainDeclaration sub') ⟨ending, none⟩ before = right at hplain ⊢
  cases hplain with
  | ok statement after => exact .ok statement after
  | fault after hfault =>
      exact ((Seen.note hfault).bind fun _ => Seen.synchronize.bind fun _ => Seen.pure none)
        ending limit after
  | outOfFuel after => exact .outOfFuel after

/-- Reading by a rule is seen from its marked reading if this holds of the rules that it refers to. -/
theorem Rule.step_seen (rule : Rule) :
    Seen (rule.step sub)
      (do
        rule.mark
        rule.step sub') := by
  cases rule with
  | declaration => exact declaration_seen hsub
  | expression => exact expression_seen hsub
  | parameters count => exact parameters_seen hsub count
  | arguments count => exact arguments_seen hsub count
  | _ => exact Seen.congruence.step sub' hsub True.intro

end

/-- However many references to rules are allowed, reading is seen from the marked reading. -/
theorem Rule.run_seen (fuel : Nat) (rule : Rule) :
    Seen (Rule.run fuel rule) (Rule.runMarked fuel rule) := by
  induction fuel generalizing rule with
  | zero => exact fun _ _ before => .outOfFuel before
  | succ fuel ih => exact Rule.step_seen ih rule

/-- A program read under a limit is seen from the program that was read with a journal. -/
theorem readProgram_seen (ending : Token) (limit : Option Nat) (start : State) :
    readProgram ⟨ending, limit⟩ (start.seen limit) =
      { readMarked ending start with
        errors := (readMarked ending start).errors.filterMap (·.under limit) } := by
  have hread := Rule.run_seen (fuelFor start.rest.length) (.declarations false) ending limit start
  simp only [readProgram, readMarked]
  change Shows limit (Rule.run (fuelFor (start.seen limit).rest.length) _ _ _)
    (Rule.runMarked _ _ _ _) at hread
  generalize Rule.run (fuelFor (start.seen limit).rest.length) (.declarations false)
    ⟨ending, limit⟩ (start.seen limit) = left at hread ⊢
  generalize Rule.runMarked (fuelFor start.rest.length) (.declarations false) ⟨ending, none⟩
    start = right at hread ⊢
  cases hread with
  | ok statements after => rfl
  | fault after _ => rfl
  | outOfFuel after => rfl

end Grammar

end Lox
