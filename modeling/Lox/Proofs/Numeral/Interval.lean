import Lox.Numeral.Shortest
import Lox.Proofs.Numeral.Double

/-!
# The numbers that round to a double

Around every double lies the interval of the numbers that round to it. The intervals of different
doubles have no number in common, and each holds the decimal that is shown for its double.
-/

namespace Lox.Numeral

/-- The number that a decimal is. -/
def Decimal.value (d : Decimal) : ℚ :=
  d.coefficient * 10 ^ d.exponent

namespace Magnitude

/-- A quarter of the last place. -/
def quarter (m : Magnitude) : ℚ :=
  2 ^ (m.exponent - 2)

/-- The lower end of the interval. -/
def low (m : Magnitude) : ℚ :=
  (4 * m.significand - m.gapBelow) * m.quarter

/-- The upper end of the interval. -/
def high (m : Magnitude) : ℚ :=
  (4 * m.significand + 2) * m.quarter

/-- The number that a magnitude is. -/
def value (m : Magnitude) : ℚ :=
  4 * m.significand * m.quarter

/-- The number rounds to the magnitude: it lies in the interval, the ends of which belong to it if
the significand is even. -/
structure Nearest (m : Magnitude) (v : ℚ) : Prop where
  low_le : m.low ≤ v
  le_high : v ≤ m.high
  even_of_low : m.low = v → m.significand % 2 = 0
  even_of_high : v = m.high → m.significand % 2 = 0

theorem quarter_pos (m : Magnitude) : 0 < m.quarter :=
  zpow_pos (by norm_num) _

theorem gapBelow_pos (m : Magnitude) : 0 < m.gapBelow := by
  unfold gapBelow
  split <;> decide

theorem gapBelow_le (m : Magnitude) : m.gapBelow ≤ 2 := by
  unfold gapBelow
  split <;> decide

theorem value_eq (m : Magnitude) : m.value = m.significand * 2 ^ m.exponent := by
  have hquarter : (2 : ℚ) ^ m.exponent = 4 * m.quarter := by
    rw [quarter, zpow_sub₀ (by norm_num)]
    ring
  rw [value, hquarter]
  ring

theorem low_lt_value (m : Magnitude) : m.low < m.value := by
  have hgap : (0 : ℚ) < m.gapBelow := by exact_mod_cast m.gapBelow_pos
  exact mul_lt_mul_of_pos_right (by linarith) m.quarter_pos

theorem value_lt_high (m : Magnitude) : m.value < m.high :=
  mul_lt_mul_of_pos_right (by linarith) m.quarter_pos

section

variable {m : Magnitude} {v : ℚ}

theorem Nearest.of_inside (hlow : m.low < v) (hhigh : v < m.high) : m.Nearest v :=
  ⟨hlow.le, hhigh.le, fun heq => absurd heq hlow.ne, fun heq => absurd heq hhigh.ne⟩

theorem nearest_iff : m.Nearest v ↔
    if m.significand % 2 = 0 then m.low ≤ v ∧ v ≤ m.high else m.low < v ∧ v < m.high := by
  split
  · next heven =>
      exact ⟨fun h => ⟨h.low_le, h.le_high⟩, fun h => ⟨h.1, h.2, fun _ => heven, fun _ => heven⟩⟩
  · next hodd =>
      refine ⟨fun h => ⟨lt_of_le_of_ne h.low_le fun heq => hodd (h.even_of_low heq), ?_⟩,
        fun h => .of_inside h.1 h.2⟩
      exact lt_of_le_of_ne h.le_high fun heq => hodd (h.even_of_high heq)

/-- A double is in its own interval. -/
theorem nearest_value (m : Magnitude) : m.Nearest m.value :=
  .of_inside m.low_lt_value m.value_lt_high

end

/-! ## Intervals of different magnitudes -/

section

variable {m n : Magnitude}

theorem two_mul_quarter_le (h : m.exponent < n.exponent) : 2 * m.quarter ≤ n.quarter := by
  have hdouble : 2 * m.quarter = 2 ^ (m.exponent - 2 + 1) := by
    rw [quarter, zpow_add_one₀ (by norm_num), mul_comm]
  rw [hdouble, quarter]
  exact zpow_le_zpow_right₀ (by norm_num) (by omega)

/-- Above the smallest exponent, the interval begins a quarter below the leading bit or later. -/
theorem Canonical.le_low (hn : n.Canonical) (h : n.exponent ≠ -1074) :
    2 ^ 54 - 1 + n.gapBelow ≤ 4 * n.significand := by
  have hge := hn.significand_ge.resolve_left h
  have hgap := n.gapBelow_le
  by_cases hlead : n.significand = 2 ^ 52
  · rw [gapBelow, if_pos (hn.closeBelow.mpr ⟨hlead, h⟩), hlead]
    decide
  · omega

/-- The interval of a magnitude ends where the interval of a larger one begins, if not before it,
and a point between them does not belong to both. -/
theorem high_le_low (hm : m.Canonical) (hn : n.Canonical)
    (h : m.exponent < n.exponent ∨ m.exponent = n.exponent ∧ m.significand < n.significand) :
    m.high ≤ n.low ∧ (m.high = n.low → m.significand % 2 = 1 ∨ n.significand % 2 = 1) := by
  have hquarter := m.quarter_pos
  rcases h with hlt | ⟨heq, hlt⟩
  · have htwice := two_mul_quarter_le hlt
    have hbegin : (2 ^ 54 - 1 : ℚ) ≤ 4 * n.significand - n.gapBelow := by
      have hle := hn.le_low (by have := hm.exponent_ge; omega)
      have hcast : ((2 ^ 54 - 1 + n.gapBelow : ℕ) : ℚ) ≤ (4 * n.significand : ℕ) := by
        exact_mod_cast hle
      push_cast at hcast
      norm_num at hcast ⊢
      linarith
    have hbound : (2 ^ 55 - 2) * m.quarter ≤ n.low :=
      calc (2 ^ 55 - 2) * m.quarter = (2 ^ 54 - 1) * (2 * m.quarter) := by ring
        _ ≤ (2 ^ 54 - 1) * n.quarter := by gcongr
        _ ≤ n.low := by rw [low]; gcongr; exact n.quarter_pos.le
    have hend : (4 * m.significand + 2 : ℚ) ≤ 2 ^ 55 - 2 := by
      have hle : 4 * m.significand + 4 ≤ 2 ^ 55 := by have := hm.significand_lt; omega
      have hcast : ((4 * m.significand + 4 : ℕ) : ℚ) ≤ (2 ^ 55 : ℕ) := by exact_mod_cast hle
      push_cast at hcast
      linarith
    refine ⟨le_trans ?_ hbound, fun hmeet => .inl ?_⟩
    · rw [high]
      gcongr
    · rw [← hmeet, high] at hbound
      have hge := le_of_mul_le_mul_right hbound hquarter
      have hcast : ((2 ^ 55 : ℕ) : ℚ) ≤ (4 * m.significand + 4 : ℕ) := by
        push_cast
        linarith
      have hle : 2 ^ 55 ≤ 4 * m.significand + 4 := by exact_mod_cast hcast
      have hlt := hm.significand_lt
      omega
  · have hsame : n.quarter = m.quarter := by rw [quarter, quarter, heq]
    have hgap := n.gapBelow_le
    have hle : 4 * m.significand + 2 + n.gapBelow ≤ 4 * n.significand := by omega
    have hcast : ((4 * m.significand + 2 + n.gapBelow : ℕ) : ℚ) ≤ (4 * n.significand : ℕ) := by
      exact_mod_cast hle
    push_cast at hcast
    rw [high, low, hsame]
    refine ⟨mul_le_mul_of_nonneg_right (by linarith) hquarter.le, fun hmeet => ?_⟩
    have hends := mul_right_cancel₀ hquarter.ne' hmeet
    have hmeets : ((4 * m.significand + 2 + n.gapBelow : ℕ) : ℚ) = (4 * n.significand : ℕ) := by
      push_cast
      linarith
    have hnat : 4 * m.significand + 2 + n.gapBelow = 4 * n.significand := by exact_mod_cast hmeets
    omega

theorem Canonical.ext (hm : m.Canonical) (hn : n.Canonical) (hexponent : m.exponent = n.exponent)
    (hsignificand : m.significand = n.significand) : m = n := by
  have hclose : m.closeBelow = n.closeBelow := by
    rw [Bool.eq_iff_iff, hm.closeBelow, hn.closeBelow, hexponent, hsignificand]
  obtain ⟨significand, exponent, closeBelow⟩ := m
  obtain ⟨significand', exponent', closeBelow'⟩ := n
  simp_all

theorem Nearest.not_before {v : ℚ} (hm : m.Canonical) (hn : n.Canonical) (hmv : m.Nearest v)
    (hnv : n.Nearest v) :
    ¬(m.exponent < n.exponent ∨ m.exponent = n.exponent ∧ m.significand < n.significand) := by
  intro hbefore
  obtain ⟨hle, hodd⟩ := high_le_low hm hn hbefore
  have hhigh : v = m.high := le_antisymm hmv.le_high (hle.trans hnv.low_le)
  have hlow : n.low = v := le_antisymm hnv.low_le (hmv.le_high.trans hle)
  have hm2 := hmv.even_of_high hhigh
  have hn2 := hnv.even_of_low hlow
  have := hodd (hhigh.symm.trans hlow.symm)
  omega

/-- A number rounds to one magnitude only. -/
theorem Nearest.unique {v : ℚ} (hm : m.Canonical) (hn : n.Canonical) (hmv : m.Nearest v)
    (hnv : n.Nearest v) : m = n := by
  have hmn := hmv.not_before hm hn hnv
  have hnm := hnv.not_before hn hm hmv
  exact hm.ext hn (by omega) (by omega)

end

end Magnitude

end Lox.Numeral
