import Lox.Proofs.Run.History
import Lox.Proofs.Run.Shape

/-!
# Operators are always known

The trees that are read from tokens have no operators but those of the language. So the errors that
the machine keeps for other operators are never raised, whatever else a run ends with.
-/

namespace Lox

/-- Whether the fault is that the language has no such operator. -/
def RuntimeFault.IsInvalidOperator : RuntimeFault → Prop
  | .invalidUnaryOperator | .invalidBinaryOperator => True
  | _ => False

theorem ne_of_head? {first name last other : String} {c d : Char}
    (hfirst : first.toList.head? = some c) (hother : other.toList.head? = some d) (hne : c ≠ d) :
    first ++ name ++ last ≠ other := by
  intro heq
  have hhead : (first ++ name ++ last).toList.head? = some c := by simp [hfirst]
  rw [heq, hother] at hhead
  exact hne (Option.some.inj hhead).symm

theorem RuntimeFault.message_ne {fault : RuntimeFault} (h : ¬fault.IsInvalidOperator) :
    fault.message ≠ "Invalid unary operator." ∧ fault.message ≠ "Invalid binary operator." := by
  cases fault with
  | invalidUnaryOperator | invalidBinaryOperator => exact absurd True.intro h
  | undefinedVariable name | undefinedProperty name =>
      exact ⟨ne_of_head? (by rfl) (by rfl) (by decide), ne_of_head? (by rfl) (by rfl) (by decide)⟩
  | _ => exact ⟨by decide, by decide⟩

namespace Run

variable {α : Type} {property : Token → Prop} {operator : Token} {machine : Machine}

/-- The action never ends for the reason that the language has no such operator. -/
def KnowsOperators (action : Action α) : Prop :=
  ∀ machine error after, action machine = .error (.fault error) after →
    ¬error.fault.IsInvalidOperator

namespace KnowsOperators

theorem pure (a : α) : KnowsOperators (Pure.pure a : Action α) :=
  fun _ _ _ h => by cases h

theorem fail {fault : RuntimeFault} (token : Token) (h : ¬fault.IsInvalidOperator) :
    KnowsOperators (Run.fail fault token : Action α) := by
  intro machine error after hend
  cases hend
  exact h

end KnowsOperators

theorem unary_knows (h : operator.category ∈ unaryOperators) (value : Value) :
    KnowsOperators (unary operator value) := by
  unfold unary
  split
  · exact .pure _
  · exact .fail _ id
  · exact .pure _
  · simp_all [unaryOperators]

theorem arithmetic_knows (h : operator.category ∈ binaryOperators)
    (hplus : operator.category ≠ .symbol .plus) (hequal : operator.category ≠ .symbol .equalEqual)
    (hdiffer : operator.category ≠ .symbol .bangEqual) (a b : Float) :
    KnowsOperators (arithmetic operator a b) := by
  unfold arithmetic
  split
  case h_8 => simp_all [binaryOperators]
  all_goals exact .pure _

theorem binary_knows (h : operator.category ∈ binaryOperators) (left right : Value) :
    KnowsOperators (binary operator left right) := by
  unfold binary
  split
  · unfold add
    split
    · exact .pure _
    · exact .pure _
    · exact .fail _ id
  · exact .pure _
  · exact .pure _
  · next hplus hequal hdiffer =>
      split
      · exact arithmetic_knows h hplus hequal hdiffer _ _
      · exact .fail _ id

/-- Only an operator of its own can a task be blamed for that is not known. -/
theorem operator_of_invalid {task : Task} {error : RuntimeError} (h : error ∈ task.faults)
    (hinvalid : error.fault.IsInvalidOperator) :
    (∃ id operator operand, task = .evaluate (.unary id operator operand)) ∨
      ∃ id left operator right, task = .evaluate (.binary id left operator right) := by
  cases task with
  | evaluate e =>
      cases e with
      | unary id operator operand => exact .inl ⟨_, _, _, rfl⟩
      | binary id left operator right => exact .inr ⟨_, _, _, _, rfl⟩
      | _ =>
          simp [Task.faults, Heap.undefined] at h <;> grind [RuntimeFault.IsInvalidOperator]
  | execute s =>
      cases s with
      | class_ name superclass methods =>
          cases superclass <;> simp [Task.faults, Heap.undefined] at h <;>
            grind [RuntimeFault.IsInvalidOperator]
      | _ => simp [Task.faults] at h
  | _ => simp [Task.faults] at h

theorem error_of_bind {β : Type} {first : Action α} {second : α → Action β} {interrupt : Interrupt}
    {last : Machine} (h : (first >>= second) machine = .error interrupt last) :
    first machine = .error interrupt last ∨
      ∃ a after, first machine = .ok a after ∧ second a after = .error interrupt last := by
  rw [bind_eq_andThen] at h
  cases hfirst : first machine with
  | ok a after =>
      rw [hfirst] at h
      exact .inr ⟨a, after, rfl, h⟩
  | error interrupt after =>
      rw [hfirst] at h
      cases h
      exact .inl rfl

/-- A run of well-shaped code never ends for the reason that the language has no such operator. -/
theorem run_knows {fuel : Nat} {task : Task}
    (h : (History.all (.shaped property)).Begins fuel task machine) {error : RuntimeError}
    {after : Machine} (hend : Task.run fuel task machine = .error (.fault error) after) :
    ¬error.fault.IsInvalidOperator := by
  induction fuel generalizing task machine after with
  | zero => cases hend
  | succ fuel ih =>
      obtain hown | ⟨inner, start, final, hasks, hpermits, hheap, hinner⟩ :=
        h.traced.interrupted .whole h.safe (.refl _) hend
      · intro hinvalid
        obtain ⟨id, operator, operand, rfl⟩ | ⟨id, left, operator, right, rfl⟩ :=
          operator_of_invalid hown hinvalid
        · obtain ⟨hoperator, hoperand⟩ := h.code
          have hbegins : (History.all (.shaped property)).Begins fuel (.evaluate operand) machine :=
            ⟨True.intro, hoperand, h.sound⟩
          obtain hfirst | ⟨value, middle, -, hown⟩ := error_of_bind hend
          · exact ih hbegins hfirst hinvalid
          · exact unary_knows hoperator value _ _ _ hown hinvalid
        · obtain ⟨hleft, hoperator, hright⟩ := h.code
          have hbegins : (History.all (.shaped property)).Begins fuel (.evaluate left) machine :=
            ⟨True.intro, hleft, h.sound⟩
          obtain hfirst | ⟨a, middle, hfirst, hrest⟩ := error_of_bind hend
          · exact ih hbegins hfirst hinvalid
          have hevolves := hbegins.evolves
          rw [hfirst] at hevolves
          have hbegins' : (History.all (.shaped property)).Begins fuel (.evaluate right) middle :=
            ⟨True.intro, hright, h.sound.changes hevolves.heap⟩
          obtain hsecond | ⟨b, last, -, hown⟩ := error_of_bind hrest
          · exact ih hbegins' hsecond hinvalid
          · exact binary_knows hoperator a b _ _ _ hown hinvalid
      · exact ih (h.inside hasks hpermits hheap) hinner

end Run

end Lox
