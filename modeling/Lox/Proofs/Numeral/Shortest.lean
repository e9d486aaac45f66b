import Lox.Numeral.Shortest
import Lox.Proofs.Numeral.Interval

/-!
# The shortest decimal rounds to its double

Whether a decimal lies in the interval around a double is decided exactly, and a grid of seventeen
digits is finer than the interval is wide, so that one of the neighbours of the double lies in it.
-/

namespace Lox.Numeral

namespace Ratio

/-- The number that a ratio is. -/
def value (r : Ratio) : ℚ :=
  r.numerator / r.denominator

theorem power_denominator_pos {base : Nat} (hbase : 0 < base) (exponent : Int) :
    0 < (power base exponent).denominator := by
  cases exponent with
  | ofNat e => exact Nat.one_pos
  | negSucc e => exact Nat.pow_pos hbase

theorem power_value (base : Nat) (exponent : Int) :
    (power base exponent).value = (base : ℚ) ^ exponent := by
  cases exponent with
  | ofNat e => simp [value, power]
  | negSucc e => simp [value, power, zpow_negSucc]

theorem mul_value (r s : Ratio) : (r.mul s).value = r.value * s.value := by
  simp [value, mul, mul_div_mul_comm]

/-- How many steps of `10 ^ grid` there are in `2 ^ binary`. -/
def steps (binary grid : Int) : Ratio :=
  (power 2 binary).mul (power 10 (-grid))

variable (binary grid : Int)

theorem steps_denominator_pos : 0 < (steps binary grid).denominator :=
  Nat.mul_pos (power_denominator_pos (by decide) _) (power_denominator_pos (by decide) _)

theorem steps_numerator : ((steps binary grid).numerator : ℚ) * 10 ^ grid =
    2 ^ binary * (steps binary grid).denominator := by
  have hdenominator : ((steps binary grid).denominator : ℚ) ≠ 0 := by
    exact_mod_cast (steps_denominator_pos binary grid).ne'
  have hvalue : (steps binary grid).value = 2 ^ binary * 10 ^ (-grid) := by
    rw [steps, mul_value, power_value, power_value]
    rfl
  rw [value, div_eq_iff hdenominator] at hvalue
  rw [hvalue, zpow_neg]
  field_simp

theorem mul_steps_numerator (a : Nat) : ((a * (steps binary grid).numerator : ℕ) : ℚ) * 10 ^ grid =
    a * 2 ^ binary * (steps binary grid).denominator := by
  push_cast
  rw [mul_assoc, steps_numerator, mul_assoc]

/-- Multiples of `2 ^ binary` and of `10 ^ grid` are compared as natural numbers. -/
theorem steps_le_iff (a b : Nat) : a * (steps binary grid).numerator ≤
    b * (steps binary grid).denominator ↔ (a : ℚ) * 2 ^ binary ≤ b * 10 ^ grid := by
  have hdenominator : (0 : ℚ) < (steps binary grid).denominator := by
    exact_mod_cast steps_denominator_pos binary grid
  have hten : (0 : ℚ) < 10 ^ grid := zpow_pos (by norm_num) _
  rw [← mul_le_mul_iff_of_pos_right hdenominator, ← mul_steps_numerator, mul_right_comm,
    ← Nat.cast_mul, mul_le_mul_iff_of_pos_right hten, Nat.cast_le]

theorem le_steps_iff (a b : Nat) : b * (steps binary grid).denominator ≤
    a * (steps binary grid).numerator ↔ (b : ℚ) * 10 ^ grid ≤ a * 2 ^ binary := by
  have hdenominator : (0 : ℚ) < (steps binary grid).denominator := by
    exact_mod_cast steps_denominator_pos binary grid
  have hten : (0 : ℚ) < 10 ^ grid := zpow_pos (by norm_num) _
  rw [← mul_le_mul_iff_of_pos_right hdenominator, ← mul_steps_numerator, mul_right_comm,
    ← Nat.cast_mul, mul_le_mul_iff_of_pos_right hten, Nat.cast_le]

end Ratio

namespace Magnitude

open Ratio

variable {m : Magnitude} {tie : Tie} {grid : Int}

/-! ## One grid -/

/-- The test for the interval is exact. -/
theorem admits_iff (hpos : 0 < m.significand) (x : Nat) :
    m.admits (steps (m.exponent - 2) grid) x = true ↔ m.Nearest (x * 10 ^ grid) := by
  have hgap : m.gapBelow ≤ 4 * m.significand := by have := m.gapBelow_le; omega
  have hlow : ((4 * m.significand - m.gapBelow : ℕ) : ℚ) * 2 ^ (m.exponent - 2) = m.low := by
    rw [low, quarter, Nat.cast_sub hgap]
    push_cast
    rfl
  have hhigh : ((4 * m.significand + 2 : ℕ) : ℚ) * 2 ^ (m.exponent - 2) = m.high := by
    rw [high, quarter]
    push_cast
    rfl
  rw [nearest_iff, admits]
  split
  · simp only [Bool.and_eq_true, decide_eq_true_eq, steps_le_iff, le_steps_iff, hlow, hhigh]
  · simp only [Bool.and_eq_true, decide_eq_true_eq, ← not_le, steps_le_iff, le_steps_iff, hlow,
      hhigh]

/-- The neighbour below the magnitude. -/
def gridBelow (m : Magnitude) (grid : Int) : Nat :=
  4 * m.significand * (steps (m.exponent - 2) grid).numerator /
    (steps (m.exponent - 2) grid).denominator

theorem gridBelow_le (m : Magnitude) (grid : Int) :
    (m.gridBelow grid : ℚ) * 10 ^ grid ≤ m.value ∧
      m.value < ((m.gridBelow grid + 1 : ℕ) : ℚ) * 10 ^ grid := by
  have hvalue : ((4 * m.significand : ℕ) : ℚ) * 2 ^ (m.exponent - 2) = m.value := by
    rw [value, quarter]
    push_cast
    rfl
  rw [← hvalue, ← not_le, ← le_steps_iff, ← le_steps_iff]
  refine ⟨Nat.div_mul_le_self _ _, not_le.mpr ?_⟩
  exact Nat.lt_mul_of_div_lt (Nat.lt_succ_self _) (steps_denominator_pos _ _)

theorem onGrid?_some {d : Decimal} (h : m.onGrid? tie grid = some d) :
    d.exponent = grid ∧ m.admits (steps (m.exponent - 2) grid) d.coefficient = true := by
  unfold onGrid? at h
  simp only at h
  split at h
  · next hbelow habove =>
      have heither (preferAbove : Bool) : m.admits (steps (m.exponent - 2) grid)
          (if preferAbove then m.gridBelow grid + 1 else m.gridBelow grid) = true := by
        cases preferAbove
        · exact hbelow
        · exact habove
      cases h
      exact ⟨rfl, heither _⟩
  · next hbelow habove =>
      cases h
      exact ⟨rfl, hbelow⟩
  · next hbelow habove =>
      cases h
      exact ⟨rfl, habove⟩
  · cases h

theorem onGrid?_none (h : m.onGrid? tie grid = none) :
    m.admits (steps (m.exponent - 2) grid) (m.gridBelow grid) = false ∧
      m.admits (steps (m.exponent - 2) grid) (m.gridBelow grid + 1) = false := by
  unfold onGrid? at h
  simp only at h
  split at h
  · cases h
  · cases h
  · cases h
  · next hbelow habove => exact ⟨hbelow, habove⟩

/-- What is found on a grid rounds to the magnitude. -/
theorem nearest_of_onGrid? (hpos : 0 < m.significand) {d : Decimal}
    (h : m.onGrid? tie grid = some d) : m.Nearest d.value := by
  obtain ⟨rfl, hadmits⟩ := onGrid?_some h
  exact (admits_iff hpos d.coefficient).mp hadmits

/-- A grid that is finer than the interval is wide has a point in it. -/
theorem onGrid?_ne_none (tie : Tie) (hpos : 0 < m.significand)
    (hfine : (10 : ℚ) ^ grid < (m.gapBelow + 2) * m.quarter) : m.onGrid? tie grid ≠ none := by
  intro hnone
  obtain ⟨hbelow, habove⟩ := onGrid?_none hnone
  obtain ⟨hle, hlt⟩ := m.gridBelow_le grid
  have hout : (m.gridBelow grid : ℚ) * 10 ^ grid ≤ m.low := by
    by_contra hin
    have hnearest := Nearest.of_inside (not_le.mp hin) (hle.trans_lt m.value_lt_high)
    rw [(admits_iff hpos _).mpr hnearest] at hbelow
    cases hbelow
  have hover : m.high ≤ ((m.gridBelow grid + 1 : ℕ) : ℚ) * 10 ^ grid := by
    by_contra hin
    have hnearest := Nearest.of_inside (m.low_lt_value.trans hlt) (not_le.mp hin)
    rw [(admits_iff hpos _).mpr hnearest] at habove
    cases habove
  have hwidth : m.high - m.low = (m.gapBelow + 2) * m.quarter := by
    rw [high, low]
    ring
  push_cast at hover
  linarith

/-! ## Seventeen digits -/

theorem below_iff (m : Magnitude) (grid : Int) : m.below grid = true ↔ m.value < 10 ^ grid := by
  have hone := le_steps_iff m.exponent grid m.significand 1
  rw [one_mul, Nat.cast_one, one_mul, ← value_eq] at hone
  rw [← not_le, ← hone, not_le]
  exact decide_eq_true_iff

/-- The guess of the number of places from the binary logarithm is at most one too large: `59 / 196`
and `28 / 93` are bounds of the logarithm of 2 close enough for all doubles. -/
theorem ten_pow_guess_le (log : Int) (hlow : -1074 ≤ log) (hhigh : log ≤ 1023) :
    (10 : ℚ) ^ (log * 30103 / 100000 - 1) ≤ 2 ^ log := by
  have htwo : (0 : ℚ) ≤ 2 ^ log := zpow_nonneg (by norm_num) _
  rcases le_total 0 log with hpos | hneg
  · refine le_of_pow_le_pow_left₀ (n := 196) (by decide) htwo ?_
    calc ((10 : ℚ) ^ (log * 30103 / 100000 - 1)) ^ 196
        = 10 ^ ((log * 30103 / 100000 - 1) * (196 : ℕ)) := by rw [zpow_mul, zpow_natCast]
      _ ≤ 10 ^ ((59 : ℕ) * log) := zpow_le_zpow_right₀ (by norm_num) (by push_cast; omega)
      _ = (10 ^ 59) ^ log := by rw [zpow_mul, zpow_natCast]
      _ ≤ (2 ^ 196) ^ log := zpow_le_zpow_left₀ hpos (by norm_num) (by norm_num)
      _ = (2 ^ log) ^ 196 := by
        rw [← zpow_natCast, ← zpow_natCast, ← zpow_mul, ← zpow_mul, mul_comm]
  · refine le_of_pow_le_pow_left₀ (n := 93) (by decide) htwo ?_
    calc ((10 : ℚ) ^ (log * 30103 / 100000 - 1)) ^ 93
        = 10 ^ ((log * 30103 / 100000 - 1) * (93 : ℕ)) := by rw [zpow_mul, zpow_natCast]
      _ ≤ 10 ^ ((28 : ℕ) * log) := zpow_le_zpow_right₀ (by norm_num) (by push_cast; omega)
      _ = (10 ^ 28) ^ log := by rw [zpow_mul, zpow_natCast]
      _ ≤ (2 ^ 93) ^ log := by
          obtain ⟨n, rfl⟩ := Int.exists_eq_neg_ofNat hneg
          rw [zpow_neg, zpow_neg, zpow_natCast, zpow_natCast]
          gcongr
          norm_num
      _ = (2 ^ log) ^ 93 := by rw [← zpow_natCast, ← zpow_natCast, ← zpow_mul, ← zpow_mul, mul_comm]

/-- The number of places before the point is not too large. -/
theorem ten_pow_places_le (hm : m.Canonical) (hpos : 0 < m.significand) :
    (10 : ℚ) ^ (m.places - 1) ≤ m.value := by
  have hlog := Nat.log2_lt (hpos.ne') |>.mpr hm.significand_lt
  have hself : (2 : ℚ) ^ ((m.significand.log2 : Int) + m.exponent) ≤ m.value := by
    rw [value_eq, zpow_add₀ (by norm_num), zpow_natCast]
    have hcast : ((2 ^ m.significand.log2 : ℕ) : ℚ) ≤ m.significand := by
      exact_mod_cast Nat.log2_self_le hpos.ne'
    push_cast at hcast
    gcongr
  have hguess := ten_pow_guess_le (m.significand.log2 + m.exponent)
    (by have := hm.exponent_ge; omega) (by have := hm.exponent_le; omega)
  simp only [places]
  split_ifs with hbelow hbelow'
  · exact hguess.trans hself
  · rw [add_sub_cancel_right]
    exact not_lt.mp ((below_iff m _).not.mp hbelow)
  · rw [add_sub_assoc]
    exact not_lt.mp ((below_iff m _).not.mp hbelow')

/-- Seventeen digits are always enough. -/
theorem onGrid?_seventeen (tie : Tie) (hm : m.Canonical) (hpos : 0 < m.significand) :
    m.onGrid? tie (m.places - 17) ≠ none := by
  refine onGrid?_ne_none tie hpos ?_
  have hplaces : (10 : ℚ) ^ 16 * 10 ^ (m.places - 17) ≤ m.value := by
    refine le_trans (le_of_eq ?_) (ten_pow_places_le hm hpos)
    rw [← zpow_natCast, ← zpow_add₀ (by norm_num)]
    congr 1
    push_cast
    ring
  have hwide : 4 * m.significand < 10 ^ 16 * (m.gapBelow + 2) := by
    have hlt := hm.significand_lt
    unfold gapBelow
    split
    · next hclose =>
        rw [(hm.closeBelow.mp hclose).1]
        decide
    · omega
  have hcast : ((4 * m.significand : ℕ) : ℚ) < (10 ^ 16 * (m.gapBelow + 2) : ℕ) := by
    exact_mod_cast hwide
  push_cast at hcast
  refine lt_of_mul_lt_mul_left (hplaces.trans_lt ?_) (by positivity : (0 : ℚ) ≤ 10 ^ 16)
  rw [value, ← mul_assoc]
  exact mul_lt_mul_of_pos_right hcast m.quarter_pos

theorem search_nearest (hpos : 0 < m.significand) {places : Int}
    (h : m.onGrid? tie (places - 17) ≠ none) (fuel digits : Nat) (hdigits : digits ≤ 17)
    (hfuel : 17 < digits + fuel) : m.Nearest (m.search tie places fuel digits).value := by
  induction fuel generalizing digits with
  | zero => omega
  | succ fuel ih =>
      rw [search]
      split
      · next d hd => exact nearest_of_onGrid? hpos hd
      · next hnone =>
          have hne : digits ≠ 17 := by
            rintro rfl
            exact h hnone
          exact ih (digits + 1) (by omega) (by omega)

end Magnitude

theorem Decimal.stripZeros_value (fuel : Nat) (d : Decimal) :
    (d.stripZeros fuel).value = d.value := by
  induction fuel generalizing d with
  | zero => rfl
  | succ fuel ih =>
      rw [stripZeros]
      split
      · next hzeros =>
          have htens : d.coefficient = d.coefficient / 10 * 10 := by omega
          have hcast : (d.coefficient : ℚ) = (d.coefficient / 10 : ℕ) * 10 := by
            exact_mod_cast htens
          rw [ih, value, value, hcast, zpow_add_one₀ (by norm_num)]
          ring
      · rfl

/-- The shortest decimal rounds to its magnitude. -/
theorem Magnitude.shortest_nearest {m : Magnitude} (tie : Tie) (hm : m.Canonical)
    (hpos : 0 < m.significand) : m.Nearest (m.shortest tie).value := by
  rw [shortest, if_neg hpos.ne', Decimal.stripZeros_value]
  exact search_nearest hpos (onGrid?_seventeen tie hm hpos) 17 1 (by decide) (by decide)

end Lox.Numeral
