import Lox.Numeral.Double

/-!
# The shortest decimal that reads back

Around every double lies the interval of the reals that round to it. `Magnitude.shortest` picks,
among the decimals in that interval, one with the fewest digits and among those the nearest. On
the grid of decimals with a given number of digits only the two neighbours of the double itself
have to be looked at: if any point of the grid lies in the interval, one of the neighbours does.

All comparisons are made in units of a quarter of the last place, where the double is four times
its significand and the ends of the interval are natural numbers as well.
-/

namespace Lox.Numeral

/-- The number `coefficient · 10 ^ exponent`. -/
structure Decimal where
  coefficient : Nat
  exponent : Int
  deriving DecidableEq, Repr

/-- Which of two equally near neighbours is taken. -/
inductive Tie where
  | up
  | toEven
  deriving DecidableEq, Repr

/-- A positive rational as a pair of numerator and denominator. -/
structure Ratio where
  numerator : Nat
  denominator : Nat

namespace Ratio

/-- `base ^ exponent` for a whole exponent of either sign. -/
def power (base : Nat) : Int → Ratio
  | .ofNat e => ⟨Nat.pow base e, 1⟩
  | .negSucc e => ⟨1, Nat.pow base (e + 1)⟩

/-- The product of two ratios. -/
def mul (a b : Ratio) : Ratio :=
  ⟨a.numerator * b.numerator, a.denominator * b.denominator⟩

end Ratio

namespace Magnitude

/-- Half the distance to the next smaller double, in quarters of the last place. -/
def gapBelow (m : Magnitude) : Nat :=
  if m.closeBelow then 1 else 2

/-- Whether `x / unit`, with `x` counted in quarters of the last place, rounds to the magnitude:
the ends of the interval belong to it exactly when the significand is even. -/
def admits (m : Magnitude) (unit : Ratio) (x : Nat) : Bool :=
  let point := x * unit.denominator
  let low := (4 * m.significand - m.gapBelow) * unit.numerator
  let high := (4 * m.significand + 2) * unit.numerator
  if m.significand % 2 = 0 then low ≤ point && point ≤ high else low < point && point < high

/-- The neighbour of the magnitude on the grid of multiples of `10 ^ exponent` that rounds to it,
the nearer one if both do. -/
def onGrid? (tie : Tie) (m : Magnitude) (exponent : Int) : Option Decimal :=
  let unit := (Ratio.power 2 (m.exponent - 2)).mul (Ratio.power 10 (-exponent))
  let scaled := 4 * m.significand * unit.numerator
  let below := scaled / unit.denominator
  let above := below + 1
  let twice := 2 * (scaled % unit.denominator)
  let preferAbove : Bool :=
    if twice = unit.denominator then
      match tie with
      | .up => true
      | .toEven => below % 2 == 1
    else decide (unit.denominator < twice)
  match m.admits unit below, m.admits unit above with
  | true, true => some ⟨if preferAbove then above else below, exponent⟩
  | true, false => some ⟨below, exponent⟩
  | false, true => some ⟨above, exponent⟩
  | false, false => none

/-- Whether the magnitude is less than `10 ^ exponent`. -/
def below (m : Magnitude) (exponent : Int) : Bool :=
  let unit := (Ratio.power 2 m.exponent).mul (Ratio.power 10 (-exponent))
  m.significand * unit.numerator < unit.denominator

/-- The number of decimal places before the point: the least `e` with the magnitude below
`10 ^ e`. The binary logarithm fixes it up to two places. -/
def places (m : Magnitude) : Int :=
  let guess := ((m.significand.log2 : Int) + m.exponent) * 30103 / 100000
  if m.below guess then guess else if m.below (guess + 1) then guess + 1 else guess + 2

end Magnitude

/-- Drops at most `fuel` trailing zeros of the coefficient. -/
def Decimal.stripZeros : Nat → Decimal → Decimal
  | 0, d => d
  | fuel + 1, d =>
      if d.coefficient ≠ 0 ∧ d.coefficient % 10 = 0 then
        stripZeros fuel ⟨d.coefficient / 10, d.exponent + 1⟩
      else d

/-- The first grid of `digits` or more digits that holds a decimal which rounds to the magnitude.
Seventeen digits always suffice. -/
def Magnitude.search (tie : Tie) (m : Magnitude) (places : Int) : Nat → Nat → Decimal
  | 0, digits => ⟨0, places - digits⟩
  | fuel + 1, digits =>
      match m.onGrid? tie (places - digits) with
      | some d => d
      | none => search tie m places fuel (digits + 1)

/-- The decimal with the fewest digits that rounds to the magnitude, the nearest of those. -/
def Magnitude.shortest (tie : Tie) (m : Magnitude) : Decimal :=
  if m.significand = 0 then ⟨0, 0⟩ else (m.search tie m.places 17 1).stripZeros 17

end Lox.Numeral
