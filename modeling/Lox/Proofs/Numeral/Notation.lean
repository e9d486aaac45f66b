import Lox.Numeral.Notation
import Lox.Proofs.Numeral.Reading
import Lox.Proofs.Numeral.Shortest

/-!
# How numbers are shown

What is shown for a finite double writes a number that rounds to it, so that different doubles are
shown by different texts.
-/

namespace Lox.Numeral

/-- The text is a decimal that writes the number. -/
def Writes (text : List Char) (v : ℚ) : Prop :=
  ∃ coefficient places, decimal? text = some (coefficient, places) ∧ v = coefficient / 10 ^ places

theorem Writes.unique {text : List Char} {v w : ℚ} (hv : Writes text v) (hw : Writes text w) :
    v = w := by
  obtain ⟨coefficient, places, hdecimal, rfl⟩ := hv
  obtain ⟨coefficient', places', hdecimal', rfl⟩ := hw
  rw [hdecimal] at hdecimal'
  cases hdecimal'
  rfl

/-! ## Digits -/

theorem toDigits_isDigit (n : Nat) : ∀ d ∈ Nat.toDigits 10 n, d.isDigit :=
  fun _ hd => Nat.isDigit_of_mem_toDigits (by decide) (by decide) hd

theorem replicate_zero_isDigit (count : Nat) : ∀ d ∈ List.replicate count '0', d.isDigit := by
  intro d hd
  rw [(List.mem_replicate.mp hd).2]
  decide

/-- Digits on both sides of a point. -/
theorem writes_point {digits places : List Char} {v : ℚ} (hne : digits ≠ [])
    (h : ∀ d ∈ digits, d.isDigit) (hplaces : places ≠ []) (hdigits : ∀ d ∈ places, d.isDigit)
    (hv : v = Nat.ofDigitChars 10 (digits ++ places) 0 / 10 ^ places.length) :
    Writes (digits ++ '.' :: places) v :=
  ⟨_, _, decimal?_point hne h hplaces hdigits, hv⟩

section

variable (n : Nat)

/-- A whole number with a point. -/
theorem whole_writes : Writes (Nat.toDigits 10 n ++ '.' :: ['0']) n := by
  refine writes_point Nat.toDigits_ne_nil (toDigits_isDigit n) (List.cons_ne_nil '0' [])
    (List.forall_mem_singleton.mpr rfl) ?_
  rw [Nat.ofDigitChars_append, Nat.ofDigitChars_ten_toDigits]
  simp [Nat.ofDigitChars_cons]

theorem zeros_write (count : Nat) :
    Writes (Nat.toDigits 10 n ++ List.replicate count '0') (n * 10 ^ count) := by
  have hall := List.forall_mem_append.mpr ⟨toDigits_isDigit n, replicate_zero_isDigit count⟩
  refine ⟨_, _, decimal?_whole (List.append_ne_nil_of_left_ne_nil Nat.toDigits_ne_nil _) hall, ?_⟩
  rw [Nat.ofDigitChars_append, Nat.ofDigitChars_ten_toDigits, Nat.ofDigitChars_replicate_zero]
  simp [mul_comm]

/-- The point between the digits. -/
theorem inside_writes {places : Nat} (hpos : 0 < places)
    (h : places < (Nat.toDigits 10 n).length) :
    Writes ((Nat.toDigits 10 n).take ((Nat.toDigits 10 n).length - places) ++
      '.' :: (Nat.toDigits 10 n).drop ((Nat.toDigits 10 n).length - places))
      (n / 10 ^ places) := by
  refine writes_point ?_ (fun d hd => toDigits_isDigit n d (List.mem_of_mem_take hd)) ?_
    (fun d hd => toDigits_isDigit n d (List.mem_of_mem_drop hd)) ?_
  · rw [← List.length_pos_iff, List.length_take]
    omega
  · rw [← List.length_pos_iff, List.length_drop]
    omega
  · rw [List.take_append_drop, Nat.ofDigitChars_ten_toDigits, List.length_drop,
      Nat.sub_sub_self h.le]

/-- The point before the digits. -/
theorem before_writes {places : Nat} (h : (Nat.toDigits 10 n).length ≤ places) :
    Writes ('0' :: '.' ::
      (List.replicate (places - (Nat.toDigits 10 n).length) '0' ++ Nat.toDigits 10 n))
      (n / 10 ^ places) := by
  have hall := List.forall_mem_append.mpr
    ⟨replicate_zero_isDigit (places - (Nat.toDigits 10 n).length), toDigits_isDigit n⟩
  refine writes_point (List.cons_ne_nil '0' []) (List.forall_mem_singleton.mpr rfl)
    (List.append_ne_nil_of_right_ne_nil _ Nat.toDigits_ne_nil) hall ?_
  rw [List.singleton_append, Nat.ofDigitChars_cons, Nat.ofDigitChars_append,
    Nat.ofDigitChars_replicate_zero, List.length_append, List.length_replicate,
    Nat.sub_add_cancel h]
  simp

end

/-- A decimal without an exponent. -/
theorem Decimal.positional_writes (d : Decimal) : Writes d.positional.toList d.value := by
  obtain ⟨coefficient, exponent⟩ := d
  cases exponent with
  | ofNat e =>
      simpa [positional, Decimal.digits, zeros, Decimal.value] using zeros_write coefficient e
  | negSucc e =>
      rw [Decimal.value, zpow_negSucc, ← div_eq_mul_inv]
      by_cases hinside : e + 1 < (Nat.toDigits 10 coefficient).length
      · simpa [positional, Decimal.digits, hinside] using
          inside_writes coefficient (Nat.succ_pos e) hinside
      · simpa [positional, Decimal.digits, zeros, hinside] using
          before_writes coefficient (not_lt.mp hinside)

/-! ## Literals -/

theorem Magnitude.toNat?_value {m : Magnitude} {n : Nat} (h : m.toNat? = some n) : m.value = n := by
  rw [Magnitude.value_eq]
  obtain ⟨significand, exponent, closeBelow⟩ := m
  cases exponent with
  | ofNat e =>
      cases h
      simp
  | negSucc e =>
      simp only [Magnitude.toNat?, Nat.pow_eq] at h
      split at h
      · next hdivides =>
          obtain ⟨k, rfl⟩ := Nat.dvd_of_mod_eq_zero hdivides
          cases h
          rw [zpow_negSucc, Nat.mul_div_cancel_left _ (by positivity)]
          push_cast
          field_simp
      · cases h

theorem Magnitude.significand_pos {m : Magnitude} (h : m.toNat? = none) : 0 < m.significand := by
  refine Nat.pos_of_ne_zero fun hzero => ?_
  unfold toNat? at h
  rw [hzero] at h
  split at h <;> simp at h

/-- The text after the sign writes a number that rounds to the double. -/
theorem pointed_nearest {x : Float} {negative : Bool} {m : Magnitude}
    (h : Double.ofFloat x = .finite negative m) :
    ∃ body v, pointed x = sign negative ++ body ∧ Writes body.toList v ∧ m.Nearest v := by
  rw [pointed, whole?, h]
  simp only
  cases hwhole : m.toNat? with
  | some n =>
      refine ⟨toString n ++ ".0", n, by simp only [Option.map_some, String.append_assoc], ?_, ?_⟩
      · rw [String.toList_append, Nat.toString_eq_ofList_toDigits, String.toList_ofList]
        exact whole_writes n
      · rw [← Magnitude.toNat?_value hwhole]
        exact m.nearest_value
  | none =>
      refine ⟨(m.shortest .up).positional, _, ?_, Decimal.positional_writes _,
        m.shortest_nearest .up (Double.canonical_of_finite h) (Magnitude.significand_pos hwhole)⟩
      simp only [Option.map_none]
      rw [shortestText, h]

theorem Writes.characters {text : List Char} {v : ℚ} (h : Writes text v) :
    ∃ c rest, text = c :: rest ∧ c.isDigit ∧ ∀ d ∈ rest, d.isDigit ∨ d = '.' := by
  obtain ⟨coefficient, places, hdecimal, -⟩ := h
  exact characters_of_decimal? hdecimal

/-- The first character says whether a decimal has a minus sign. -/
theorem sign_append_injective {negative negative' : Bool} {body body' : String} {v v' : ℚ}
    (hv : Writes body.toList v) (hv' : Writes body'.toList v')
    (h : sign negative ++ body = sign negative' ++ body') :
    negative = negative' ∧ body = body' := by
  obtain ⟨c, rest, htext, hc, -⟩ := hv.characters
  obtain ⟨c', rest', htext', hc', -⟩ := hv'.characters
  have hlists := congrArg String.toList h
  rw [String.toList_append, String.toList_append] at hlists
  cases negative <;> cases negative'
  · exact ⟨rfl, String.toList_inj.mp hlists⟩
  · rw [htext] at hlists
    cases hlists
    exact absurd hc (by decide)
  · rw [htext'] at hlists
    cases hlists
    exact absurd hc' (by decide)
  · exact ⟨rfl, String.toList_inj.mp (List.append_cancel_left hlists)⟩

/-- Different finite doubles are shown by different texts. -/
theorem pointed_injective {x y : Float} {negative negative' : Bool} {m m' : Magnitude}
    (hx : Double.ofFloat x = .finite negative m) (hy : Double.ofFloat y = .finite negative' m')
    (h : pointed x = pointed y) : x = y := by
  obtain ⟨body, v, htext, hwrites, hnearest⟩ := pointed_nearest hx
  obtain ⟨body', v', htext', hwrites', hnearest'⟩ := pointed_nearest hy
  obtain ⟨rfl, rfl⟩ :=
    sign_append_injective hwrites hwrites' (htext.symm.trans (h.trans htext'))
  obtain rfl := hwrites.unique hwrites'
  obtain rfl := hnearest.unique (Double.canonical_of_finite hx) (Double.canonical_of_finite hy)
    hnearest'
  exact Double.ofFloat_injective hx hy

/-- The function reads every finite double back from what is shown for it. -/
def ReadsBack (read : String → Float) : Prop :=
  ∀ {x negative m}, Double.ofFloat x = .finite negative m → read (pointed x) = x

theorem exists_readsBack : ∃ read, ReadsBack read := by
  have hinjective :
      Set.InjOn pointed {x | ∃ negative m, Double.ofFloat x = .finite negative m} := by
    rintro x ⟨negative, m, hx⟩ y ⟨negative', m', hy⟩ h
    exact pointed_injective hx hy h
  exact ⟨Function.invFunOn pointed _, fun {x negative m} hx =>
    hinjective.leftInvOn_invFunOn ⟨negative, m, hx⟩⟩

/-- A finite double is shown by digits and points, perhaps after a sign. -/
theorem pointed_characters {x : Float} {negative : Bool} {m : Magnitude}
    (h : Double.ofFloat x = .finite negative m) :
    ∃ c rest, (pointed x).toList = c :: rest ∧ (c = '-' ∨ c.isDigit) ∧
      ∀ d ∈ rest, d.isDigit ∨ d = '.' := by
  obtain ⟨body, v, htext, hwrites, -⟩ := pointed_nearest h
  obtain ⟨c, rest, hbody, hc, hrest⟩ := hwrites.characters
  rw [htext, String.toList_append, hbody]
  cases negative with
  | false => exact ⟨c, rest, rfl, .inr hc, hrest⟩
  | true => exact ⟨'-', c :: rest, rfl, .inl rfl, List.forall_mem_cons.mpr ⟨.inl hc, hrest⟩⟩

end Lox.Numeral
