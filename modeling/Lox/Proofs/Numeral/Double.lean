import Lox.Numeral.Double
import Mathlib

/-!
# Doubles and their bits

The bits of a finite double are its sign, its exponent field and its fraction field side by side,
so that sign and magnitude determine them. No decimal is read as something that is not a number.
-/

namespace Lox.Numeral

/-- The magnitudes that doubles have. Only the smallest exponent has significands without the
leading bit, and the next smaller double is nearer than the next larger one where the exponent
changes. -/
structure Magnitude.Canonical (m : Magnitude) : Prop where
  exponent_ge : -1074 ≤ m.exponent
  exponent_le : m.exponent ≤ 971
  significand_lt : m.significand < 2 ^ 53
  significand_ge : m.exponent = -1074 ∨ 2 ^ 52 ≤ m.significand
  closeBelow : m.closeBelow = true ↔ m.significand = 2 ^ 52 ∧ m.exponent ≠ -1074

namespace Double

/-! ## The three fields -/

/-- The magnitude of an exponent field and a fraction field. -/
def magnitude (field fraction : Nat) : Magnitude :=
  if field = 0 then ⟨fraction, -1074, false⟩
  else ⟨2 ^ 52 + fraction, (field : Int) - 1075, fraction == 0 && field != 1⟩

theorem magnitude_canonical {field fraction : Nat} (hfield : field < 2047)
    (hfraction : fraction < 2 ^ 52) : (magnitude field fraction).Canonical := by
  rw [magnitude]
  split
  · exact ⟨Int.le_refl _, by simp only; omega, by simp only; omega, .inl rfl, by simp⟩
  · refine ⟨by simp only; omega, by simp only; omega, by simp only; omega, .inr (by simp), ?_⟩
    simp only [Bool.and_eq_true, beq_iff_eq, bne_iff_ne]
    omega

theorem magnitude_injective {field fraction field' fraction' : Nat} (hfraction : fraction < 2 ^ 52)
    (hfraction' : fraction' < 2 ^ 52)
    (h : magnitude field fraction = magnitude field' fraction') :
    field = field' ∧ fraction = fraction' := by
  simp only [magnitude] at h
  split at h <;> split at h <;> simp only [Magnitude.mk.injEq] at h <;> omega

/-- What the bits of a finite double are made of. -/
theorem fields_of_finite {bits : UInt64} {negative : Bool} {m : Magnitude}
    (h : ofBits bits = .finite negative m) :
    ∃ field fraction, field < 2047 ∧ fraction < 2 ^ 52 ∧ m = magnitude field fraction ∧
      bits.toNat = negative.toNat * 2 ^ 63 + field * 2 ^ 52 + fraction := by
  have hlt := bits.toNat_lt
  have hsum (sign : Bool) (hsign : (bits.toNat / 2 ^ 63 == 1) = sign) :
      bits.toNat = sign.toNat * 2 ^ 63 + bits.toNat / 2 ^ 52 % 2 ^ 11 * 2 ^ 52 +
        bits.toNat % 2 ^ 52 := by
    cases sign <;> simp at hsign ⊢ <;> omega
  simp only [ofBits, Nat.pow_eq] at h
  split at h
  · split at h <;> cases h
  · next hnumber =>
      refine ⟨bits.toNat / 2 ^ 52 % 2 ^ 11, bits.toNat % 2 ^ 52, by omega, by omega, ?_⟩
      rw [magnitude]
      split at h
      · next hzero =>
          cases h
          exact ⟨by rw [if_pos hzero], hsum _ rfl⟩
      · next hnormal =>
          cases h
          exact ⟨by rw [if_neg hnormal], hsum _ rfl⟩

theorem canonical_of_finite {bits : UInt64} {negative : Bool} {m : Magnitude}
    (h : ofBits bits = .finite negative m) : m.Canonical := by
  obtain ⟨field, fraction, hfield, hfraction, rfl, -⟩ := fields_of_finite h
  exact magnitude_canonical hfield hfraction

/-- Sign and magnitude determine a finite double. -/
theorem ofFloat_injective {x y : Float} {negative : Bool} {m : Magnitude}
    (hx : ofFloat x = .finite negative m) (hy : ofFloat y = .finite negative m) : x = y := by
  obtain ⟨field, fraction, -, hfraction, hmagnitude, hbits⟩ := fields_of_finite hx
  obtain ⟨field', fraction', -, hfraction', hmagnitude', hbits'⟩ := fields_of_finite hy
  obtain ⟨rfl, rfl⟩ :=
    magnitude_injective hfraction hfraction' (hmagnitude.symm.trans hmagnitude')
  have htoBits : x.toBits = y.toBits := UInt64.toNat_inj.mp (hbits.trans hbits'.symm)
  obtain ⟨⟨bits, valid⟩⟩ := x
  obtain ⟨⟨bits', valid'⟩⟩ := y
  change bits = bits' at htoBits
  subst htoBits
  rfl

/-! ## Numbers -/

open Float.Model (Format UnpackedFloat)
open Float.Model.UnpackedFloat (unpackExponent unpackMantissa)

/-- The bits do not say that there is no number. -/
def IsNumber (format : Format) (bits : BitVec format.numBits) : Prop :=
  unpackExponent bits = -1#_ → unpackMantissa bits = 0#_

theorem pack_isNumber {format : Format} {value : UnpackedFloat} (h : value ≠ .notANumber) :
    IsNumber format (value.pack format) := by
  intro hexponent
  cases value with
  | notANumber => exact absurd rfl h
  | infinity sign => simp [UnpackedFloat.pack, UnpackedFloat.packedInfinity]
  | zero sign => simp [UnpackedFloat.pack, UnpackedFloat.packedZero]
  | finite sign significand exponent hpos =>
      simp only [UnpackedFloat.pack] at hexponent ⊢
      split at hexponent
      · next hlarge => simp [hlarge, UnpackedFloat.packedInfinity]
      · next hsmall =>
          exfalso
          split at hexponent
          · simp only [UnpackedFloat.unpackExponent_packComponents, BitVec.neg_one_eq_allOnes,
              ← BitVec.toNat_inj, BitVec.toNat_ofNat, BitVec.toNat_allOnes] at hexponent
            rw [Nat.mod_eq_of_lt (by omega)] at hexponent
            omega
          · have hbits := Nat.one_lt_two_pow (Nat.ne_of_gt format.he)
            simp [BitVec.neg_one_eq_allOnes, ← BitVec.toNat_inj] at hexponent
            omega

theorem unpack_ne_notANumber {format : Format} {bits : BitVec format.numBits}
    (h : IsNumber format bits) : UnpackedFloat.unpack format bits ≠ .notANumber := by
  simp only [UnpackedFloat.unpack]
  split
  · next hexponent =>
      rw [if_pos (h hexponent)]
      nofun
  · split
    · split <;> nofun
    · nofun

theorem ofBits_ne_notANumber {bits : UInt64}
    (h : IsNumber .binary64 bits.toBitVec) : ofBits bits ≠ .notANumber := by
  have hexponent : (@unpackExponent Format.binary64 bits.toBitVec).toNat =
      bits.toNat / 2 ^ 52 % 2 ^ 11 := by
    simp [unpackExponent, Nat.shiftRight_eq_div_pow]
  have hmantissa : (@unpackMantissa Format.binary64 bits.toBitVec).toNat =
      bits.toNat % 2 ^ 52 := by
    simp [unpackMantissa, Nat.shiftRight_eq_div_pow]
  simp only [ofBits, Nat.pow_eq]
  split
  · next hfield =>
      have hzero := h (BitVec.eq_of_toNat_eq (hexponent.trans hfield))
      rw [← hmantissa, hzero]
      nofun
  · split <;> nofun

theorem ofFloat_pack_ne_notANumber {value : UnpackedFloat} (h : value ≠ .notANumber) :
    ofFloat (.ofModel (.pack value)) ≠ .notANumber :=
  ofBits_ne_notANumber (pack_isNumber h)

/-! ## Decimals -/

theorem roundWithAccuracy_ne_notANumber (format : Format) (sign : UnpackedFloat.Sign)
    (significand : Nat) (exponent : Int) (accuracy : UnpackedFloat.Accuracy) :
    UnpackedFloat.roundWithAccuracy format sign significand exponent accuracy ≠ .notANumber := by
  simp only [UnpackedFloat.roundWithAccuracy]
  split <;> nofun

theorem ofScientific_ne_notANumber (format : Format) (coefficient : Nat) (exponent : Int) :
    UnpackedFloat.ofScientific format coefficient exponent ≠ .notANumber := by
  unfold UnpackedFloat.ofScientific
  split_ifs
  · nofun
  · nofun
  · nofun
  · exact roundWithAccuracy_ne_notANumber _ _ _ _ _
  · exact roundWithAccuracy_ne_notANumber _ _ _ _ _

/-- Finite and not zero. -/
def IsNonzero : UnpackedFloat → Bool
  | .finite _ _ _ _ => true
  | _ => false

theorem div_ne_notANumber {format : Format} {dividend divisor : UnpackedFloat}
    (h : dividend ≠ .notANumber) (hdivisor : IsNonzero divisor = true) :
    UnpackedFloat.div format dividend divisor ≠ .notANumber := by
  cases divisor with
  | finite sign significand exponent hpos =>
      cases dividend with
      | notANumber => exact absurd rfl h
      | infinity sign => nofun
      | zero sign => nofun
      | finite sign significand exponent hpos => exact roundWithAccuracy_ne_notANumber _ _ _ _ _
  | _ => cases hdivisor

theorem mul_ne_notANumber {format : Format} {x y : UnpackedFloat}
    (h : x ≠ .notANumber) (hy : IsNonzero y = true) :
    UnpackedFloat.mul format x y ≠ .notANumber := by
  cases y with
  | finite sign significand exponent hpos =>
      cases x with
      | notANumber => exact absurd rfl h
      | infinity sign => nofun
      | zero sign => nofun
      | finite sign significand exponent hpos => exact roundWithAccuracy_ne_notANumber _ _ _ _ _
  | _ => cases hy

theorem powersOfTen_nonzero :
    ∀ e : Fin 23, IsNonzero Float.exactlyRepresentablePowersOfTen[e].toModel.unpack = true := by
  decide +kernel

theorem ofNat_ne_notANumber (format : Format) (n : Nat) :
    UnpackedFloat.ofNat format n ≠ .notANumber := by
  rw [UnpackedFloat.ofNat, UnpackedFloat.ofInt, UnpackedFloat.normalize]
  split
  · exact roundWithAccuracy_ne_notANumber _ _ _ _ _
  · nofun
  · exact roundWithAccuracy_ne_notANumber _ _ _ _ _

theorem unpack_toFloat_ne_notANumber (n : UInt64) :
    n.toFloat.toModel.unpack ≠ .notANumber :=
  unpack_ne_notANumber (pack_isNumber (ofNat_ne_notANumber _ _))

/-- The double nearest to a decimal is a number. -/
theorem ofScientific_isNumber (coefficient : Nat) (down : Bool) (places : Nat) :
    ofFloat (Float.ofScientific coefficient down places) ≠ .notANumber := by
  rw [Float.ofScientific]
  split
  · next hsmall =>
      have hpower := powersOfTen_nonzero ⟨places, by omega⟩
      split
      · exact ofFloat_pack_ne_notANumber (div_ne_notANumber (unpack_toFloat_ne_notANumber _) hpower)
      · exact ofFloat_pack_ne_notANumber (mul_ne_notANumber (unpack_toFloat_ne_notANumber _) hpower)
  · exact ofFloat_pack_ne_notANumber (ofScientific_ne_notANumber _ _ _)

end Double

end Lox.Numeral
