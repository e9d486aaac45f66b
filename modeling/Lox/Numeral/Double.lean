/-!
# The real number behind a double

A finite double is a sign and a magnitude `significand · 2 ^ exponent`. `Double.ofFloat` reads
both off the bits, so that everything else about numerals is exact arithmetic on natural
numbers.
-/

namespace Lox.Numeral

/-- The number `significand · 2 ^ exponent`. -/
structure Magnitude where
  significand : Nat
  exponent : Int
  /-- The next smaller double lies half as far away as the next larger one. -/
  closeBelow : Bool
  deriving DecidableEq, Repr

/-- What a double stands for. -/
inductive Double where
  | notANumber
  | infinite (negative : Bool)
  | finite (negative : Bool) (magnitude : Magnitude)
  deriving DecidableEq, Repr

namespace Double

/-- Reads sign, exponent and fraction fields of the 64 bits. A zero exponent field means that the
significand has no implicit leading bit. -/
def ofBits (bits : UInt64) : Double :=
  let fraction : Nat := bits.toNat % Nat.pow 2 52
  let field : Nat := bits.toNat / Nat.pow 2 52 % Nat.pow 2 11
  let negative := bits.toNat / Nat.pow 2 63 == 1
  if field = 2047 then
    if fraction = 0 then .infinite negative else .notANumber
  else if field = 0 then
    .finite negative ⟨fraction, -1074, false⟩
  else
    .finite negative ⟨Nat.pow 2 52 + fraction, (field : Int) - 1075, fraction == 0 && field != 1⟩

/-- What the float stands for. -/
def ofFloat (x : Float) : Double :=
  ofBits x.toBits

end Double

/-- The natural number that a magnitude is, if it is one. -/
def Magnitude.toNat? (m : Magnitude) : Option Nat :=
  match m.exponent with
  | .ofNat e => some (m.significand * Nat.pow 2 e)
  | .negSucc e =>
      if m.significand % Nat.pow 2 (e + 1) = 0 then some (m.significand / Nat.pow 2 (e + 1)) else none

end Lox.Numeral
