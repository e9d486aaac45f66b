import Lox.Numeral.Reading
import Mathlib.Data.List.TakeWhile

/-!
# What decimals are read as

Digits are read as the number that they write, and digits on both sides of a point as the number
that all of them write with its last places after the point.
-/

namespace Lox

/-- The characters up to the first without a property. -/
theorem split_append {p : Char → Bool} {xs : List Char} (ys : List Char) (hin : ∀ d ∈ xs, p d)
    (hout : ∀ d ∈ ys.head?, ¬p d) :
    (xs ++ ys).takeWhile p = xs ∧ (xs ++ ys).dropWhile p = ys := by
  rw [List.takeWhile_append_of_pos hin, List.dropWhile_append_of_pos hin]
  cases ys with
  | nil => simp
  | cons d more => simp [hout d rfl]

theorem split_self {p : Char → Bool} {xs : List Char} (hin : ∀ d ∈ xs, p d) :
    xs.takeWhile p = xs ∧ xs.dropWhile p = [] := by
  have hsplit := split_append [] hin (by simp)
  rwa [List.append_nil] at hsplit

theorem not_mem_decide {d : Char} {xs : List Char} (h : d ∉ xs) : ∀ e ∈ xs, decide (e ≠ d) := by
  intro e he
  rw [decide_eq_true_eq]
  rintro rfl
  exact h he

namespace Numeral

variable {digits places : List Char}

theorem digitsValue?_of_digits (hne : digits ≠ []) (h : ∀ d ∈ digits, d.isDigit) :
    digitsValue? digits = some (Nat.ofDigitChars 10 digits 0) := by
  have hall : digits.all Char.isDigit = true := List.all_eq_true.mpr h
  rw [digitsValue?, if_pos ⟨hne, hall⟩]
  rfl

theorem digits_of_digitsValue? {n : Nat} (h : digitsValue? digits = some n) :
    digits ≠ [] ∧ ∀ d ∈ digits, d.isDigit := by
  rw [digitsValue?] at h
  split at h
  · next hdigits => exact ⟨hdigits.1, List.all_eq_true.mp hdigits.2⟩
  · cases h

theorem point_not_mem (h : ∀ d ∈ digits, d.isDigit) : '.' ∉ digits :=
  fun hmem => absurd (h '.' hmem) (by decide)

theorem decimal?_whole (hne : digits ≠ []) (h : ∀ d ∈ digits, d.isDigit) :
    decimal? digits = some (Nat.ofDigitChars 10 digits 0, 0) := by
  obtain ⟨htake, hdrop⟩ := split_self (not_mem_decide (point_not_mem h))
  rw [decimal?, hdrop, htake, digitsValue?_of_digits hne h]
  rfl

theorem decimal?_point (hne : digits ≠ []) (h : ∀ d ∈ digits, d.isDigit) (hplaces : places ≠ [])
    (hdigits : ∀ d ∈ places, d.isDigit) : decimal? (digits ++ '.' :: places) =
      some (Nat.ofDigitChars 10 (digits ++ places) 0, places.length) := by
  obtain ⟨htake, hdrop⟩ := split_append ('.' :: places) (not_mem_decide (point_not_mem h))
    (by simp)
  have hboth : ∀ d ∈ digits ++ places, d.isDigit := by
    intro d hd
    rcases List.mem_append.mp hd with hd | hd
    · exact h d hd
    · exact hdigits d hd
  rw [decimal?, hdrop, htake]
  simp only [digitsValue?_of_digits hne h, digitsValue?_of_digits hplaces hdigits,
    digitsValue?_of_digits (List.append_ne_nil_of_left_ne_nil hne places) hboth]
  rfl

theorem ofDecimal?_whole (hne : digits ≠ []) (h : ∀ d ∈ digits, d.isDigit) :
    ofDecimal? digits = some (Float.ofScientific (Nat.ofDigitChars 10 digits 0) true 0) := by
  rw [ofDecimal?, decimal?_whole hne h]
  rfl

theorem ofDecimal?_decimal (hne : digits ≠ []) (h : ∀ d ∈ digits, d.isDigit) (hplaces : places ≠ [])
    (hdigits : ∀ d ∈ places, d.isDigit) : ofDecimal? (digits ++ '.' :: places) =
      some (Float.ofScientific (Nat.ofDigitChars 10 (digits ++ places) 0) true places.length) := by
  rw [ofDecimal?, decimal?_point hne h hplaces hdigits]
  rfl

/-- A decimal begins with a digit and consists of digits and points. -/
theorem characters_of_decimal? {text : List Char} {decimal : Nat × Nat}
    (h : decimal? text = some decimal) :
    ∃ c rest, text = c :: rest ∧ c.isDigit ∧ ∀ d ∈ rest, d.isDigit ∨ d = '.' := by
  have hsplit : text = text.takeWhile (· ≠ '.') ++ text.dropWhile (· ≠ '.') :=
    List.takeWhile_append_dropWhile.symm
  rw [decimal?] at h
  generalize text.takeWhile (· ≠ '.') = whole at h hsplit
  have hcharacters {after : List Char} (hvalue : ∃ n, digitsValue? whole = some n)
      (hafter : ∀ d ∈ after, d.isDigit ∨ d = '.') :
      ∃ c rest, whole ++ after = c :: rest ∧ c.isDigit ∧ ∀ d ∈ rest, d.isDigit ∨ d = '.' := by
    obtain ⟨n, hvalue⟩ := hvalue
    obtain ⟨hne, hdigits⟩ := digits_of_digitsValue? hvalue
    obtain ⟨c, rest, rfl⟩ := List.exists_cons_of_ne_nil hne
    obtain ⟨hc, hrest⟩ := List.forall_mem_cons.mp hdigits
    exact ⟨c, rest ++ after, rfl, hc,
      List.forall_mem_append.mpr ⟨fun d hd => .inl (hrest d hd), hafter⟩⟩
  split at h
  · next hnone =>
      obtain ⟨n, hvalue, -⟩ := Option.map_eq_some_iff.mp h
      rw [hsplit, hnone]
      exact hcharacters ⟨n, hvalue⟩ (by simp)
  · next c fraction hsome =>
      split at h
      · next n k hvalue hplaces =>
          rw [hsplit, hsome]
          refine hcharacters ⟨n, hvalue⟩ (List.forall_mem_cons.mpr ⟨.inr ?_, fun d hd => ?_⟩)
          · have hhead := List.head?_dropWhile_not (· ≠ '.') text
            rw [hsome] at hhead
            simpa using hhead
          · exact .inl ((digits_of_digitsValue? hplaces).2 d hd)
      · cases h

end Numeral

end Lox
