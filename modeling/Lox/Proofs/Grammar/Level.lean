import Lox.Proofs.Grammar.Cursor
import Lox.Proofs.Grammar.Derivation

/-!
# Levels of operators and layers of the grammar

The parser numbers the infix operators from the loosest to the tightest; the grammar has a layer
for each number, and the operands of the tightest are unary expressions.
-/

namespace Lox.Grammar

/-- The layer of the expressions whose operators are of at least a level. -/
def Layer.ofLevel : Nat → Layer
  | 1 => .logicOr
  | 2 => .logicAnd
  | 3 => .equality
  | 4 => .comparison
  | 5 => .term
  | 6 => .factor
  | _ => .unary

/-- The level of the operators of a layer, for the layers that have any. -/
def Layer.level : Layer → Nat
  | .logicOr => 1
  | .logicAnd => 2
  | .equality => 3
  | .comparison => 4
  | .term => 5
  | .factor => 6
  | _ => 0

theorem Layer.ofLevel_level {layer : Layer} {category : Category} (h : category ∈ layer.operators) :
    ofLevel layer.level = layer := by
  cases layer <;> first | rfl | cases h

theorem infixLevel_of_mem_operators {layer : Layer} {category : Category}
    (h : category ∈ layer.operators) : infixLevel category = some layer.level := by
  have hall : ∀ category ∈ layer.operators, infixLevel category = some layer.level := by
    cases layer <;> decide
  exact hall category h

theorem infixLevel_bounds {category : Category} {level : Nat}
    (h : infixLevel category = some level) : 1 ≤ level ∧ level ≤ 6 := by
  unfold infixLevel at h
  split at h <;> simp at h <;> omega

theorem mem_operators_of_infixLevel {category : Category} {level : Nat}
    (h : infixLevel category = some level) : category ∈ (Layer.ofLevel level).operators := by
  unfold infixLevel at h
  split at h <;> cases h <;> decide

theorem Layer.inner_ofLevel {level : Nat} (hpos : 1 ≤ level) (hle : level ≤ 6) :
    (ofLevel level).inner = some (ofLevel (level + 1)) := by
  have : level = 1 ∨ level = 2 ∨ level = 3 ∨ level = 4 ∨ level = 5 ∨ level = 6 := by omega
  rcases this with rfl | rfl | rfl | rfl | rfl | rfl <;> rfl

theorem Layer.join_ofLevel {operator : Token} {level : Nat}
    (h : infixLevel operator.category = some level) (left right : Expr) :
    (ofLevel level).join left operator right =
      match operator.category with
      | .keyword _ => .logical 0 left operator right
      | _ => .binary 0 left operator right := by
  generalize operator.category = category at h
  unfold infixLevel at h
  split at h <;> cases h <;> rfl

/-- No operator of at least a level comes first. -/
def Looser (level : Nat) (rest : List Token) : Prop :=
  ∀ tightness, (nextOf rest).bind infixLevel = some tightness → tightness < level

/-- At the end, where there is no operator, the parser sees the end marker. -/
theorem infixLevel_peek {ending : Token} (hending : ending.category = .eof) (rest : List Token) :
    infixLevel (rest.head?.getD ending).category = (nextOf rest).bind infixLevel := by
  cases rest with
  | nil => simp [hending, infixLevel]
  | cons token rest => rfl

theorem literal?_of_eof {token : Token} (h : token.category = .eof) : literal? token.kind = none := by
  unfold Token.category at h
  cases hkind : token.kind with
  | eof => rfl
  | _ => simp [hkind, Kind.category] at h

end Lox.Grammar
