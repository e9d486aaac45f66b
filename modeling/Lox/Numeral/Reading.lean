/-!
# Reading numbers

A number is read as the double nearest to the decimal it writes. `ofDecimal?` reads the literals
of the language, digits with an optional fraction; `ofText?` reads in addition a sign, an exponent
and the names of the numbers that are not finite.
-/

namespace Lox.Numeral

/-- The natural number that a list of ASCII digits writes, or nothing for an empty list or one
with any other character. -/
def digitsValue? (digits : List Char) : Option Nat :=
  if digits ≠ [] ∧ digits.all Char.isDigit then
    some (digits.foldl (fun n c => 10 * n + (c.toNat - '0'.toNat)) 0)
  else none

/-- The decimal as coefficient and number of digits after the point. A point needs digits on both
sides. -/
def decimal? (text : List Char) : Option (Nat × Nat) :=
  let whole := text.takeWhile (· ≠ '.')
  match text.dropWhile (· ≠ '.') with
  | [] => (digitsValue? whole).map (·, 0)
  | _ :: fraction =>
      match digitsValue? whole, digitsValue? fraction with
      | some _, some _ => (digitsValue? (whole ++ fraction)).map (·, fraction.length)
      | _, _ => none

/-- The double nearest to digits with an optional fraction. -/
def ofDecimal? (text : List Char) : Option Float :=
  (decimal? text).map fun (coefficient, places) => Float.ofScientific coefficient true places

/-- A whole number with an optional sign. -/
def signed? : List Char → Option Int
  | '-' :: digits => (digitsValue? digits).map fun n => -(n : Int)
  | '+' :: digits => (digitsValue? digits).map Int.ofNat
  | digits => (digitsValue? digits).map Int.ofNat

/-- A magnitude: a decimal with an optional exponent, or an infinity. -/
def unsigned? (text : List Char) : Option Float :=
  if text = "inf".toList then some (1.0 / 0.0)
  else
    let body := text.takeWhile fun c => c ≠ 'e' ∧ c ≠ 'E'
    match decimal? body, text.dropWhile fun c => c ≠ 'e' ∧ c ≠ 'E' with
    | some (coefficient, places), [] => some (Float.ofScientific coefficient true places)
    | some (coefficient, places), _ :: exponent =>
        (signed? exponent).map fun (e : Int) =>
          match e - (places : Int) with
          | .ofNat up => Float.ofScientific coefficient false up
          | .negSucc down => Float.ofScientific coefficient true (down + 1)
    | none, _ => none

/-- Reads a decimal with an optional sign and exponent, `inf`, `-inf` or `NaN`. -/
def ofText? (text : String) : Option Float :=
  match text.toList with
  | ['N', 'a', 'N'] => some (0.0 / 0.0)
  | '-' :: rest => (unsigned? rest).map Float.neg
  | rest => unsigned? rest

end Lox.Numeral
