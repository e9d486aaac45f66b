import Lox.Proofs.Scope.Place
import Mathlib.Data.List.Flatten
import Mathlib.Data.List.Perm.Basic

/-!
# The static rules

Each static rule is said by itself, as a condition on a site and its place. The violations of a
program are listed rule by rule.
-/

namespace Lox.Scope

/-- Whether the nearest function around the place is a method that initializes instances. -/
def Place.inInitializer (place : Place) : Bool :=
  match place.functions with
  | .method declaration :: _ => declaration.isInitializer
  | _ => false

/-- Whether the nearest class around the place has no superclass. -/
def Place.inBaseClass (place : Place) : Bool :=
  match place.classes with
  | none :: _ => true
  | _ => false

/-- Whether the name was declared earlier in the same local scope. -/
def Place.hasDeclared (place : Place) (name : String) : Bool :=
  match place.scopes with
  | [] => false
  | frame :: _ => decide (name ∈ frame.names)

/-- Whether a site breaks the rule that a fault is about. -/
def ScopeFault.arisesAt : ScopeFault → Occurrence → Bool
  | alreadyDeclared, ⟨place, .declaration name⟩ => place.hasDeclared name.lexeme
  | readInInitializer, ⟨place, .use ⟨.var, name, _⟩⟩ => place.initializing = some name.lexeme
  | returnOutsideFunction, ⟨place, .return_ _ _⟩ => place.functions.isEmpty
  | valueFromInitializer, ⟨place, .return_ _ hasValue⟩ => hasValue && place.inInitializer
  | thisOutsideClass, ⟨place, .use ⟨.this_, _, _⟩⟩ => place.classes.isEmpty
  | superOutsideClass, ⟨place, .use ⟨.super_, _, _⟩⟩ => place.classes.isEmpty
  | superWithoutSuperclass, ⟨place, .use ⟨.super_, _, _⟩⟩ => place.inBaseClass
  | inheritsFromItself, ⟨_, .inheritance name superName⟩ => superName.lexeme = name.lexeme
  | _, _ => false

/-- All faults. -/
def ScopeFault.all : List ScopeFault :=
  [alreadyDeclared, readInInitializer, returnOutsideFunction, valueFromInitializer,
    thisOutsideClass, superOutsideClass, superWithoutSuperclass, inheritsFromItself]

theorem ScopeFault.mem_all (fault : ScopeFault) : fault ∈ all := by
  cases fault <;> decide

/-- The violations of one rule among sites. -/
def ScopeFault.violations (fault : ScopeFault) (occurrences : List Occurrence) :
    List ScopeError :=
  (occurrences.filter fault.arisesAt).map fun occurrence => ⟨fault, occurrence.site.token⟩

/-- The violations of all rules among sites, rule by rule. -/
def violations (occurrences : List Occurrence) : List ScopeError :=
  ScopeFault.all.flatMap fun fault => fault.violations occurrences

@[simp] theorem violations_nil : violations [] = [] := rfl

theorem violations_append (xs ys : List Occurrence) :
    (violations (xs ++ ys)).Perm (violations xs ++ violations ys) := by
  have h : violations (xs ++ ys) =
      ScopeFault.all.flatMap fun fault => fault.violations xs ++ fault.violations ys := by
    simp [violations, ScopeFault.violations]
  rw [h]
  exact (List.flatMap_append_perm _ _ _).symm

theorem violations_perm {xs ys : List Occurrence} (h : xs.Perm ys) :
    (violations xs).Perm (violations ys) :=
  List.Perm.flatMap_left _ fun fault _ => (h.filter fault.arisesAt).map _

/-- A program breaks no rule exactly if no site does. -/
theorem violations_eq_nil_iff (occurrences : List Occurrence) :
    violations occurrences = [] ↔
      ∀ occurrence ∈ occurrences, ∀ fault : ScopeFault, fault.arisesAt occurrence = false := by
  simp only [violations, ScopeFault.violations, List.flatMap_eq_nil_iff, List.map_eq_nil_iff,
    List.filter_eq_nil_iff, Bool.not_eq_true]
  constructor
  · intro h occurrence hmem fault
    exact h fault fault.mem_all occurrence hmem
  · intro h fault _ occurrence hmem
    exact h occurrence hmem fault

end Lox.Scope
