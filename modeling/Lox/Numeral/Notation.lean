import Lox.Numeral.Shortest

/-!
# How numbers are written

Four notations: of a value (`plain`), of a literal in a syntax tree (`pointed`), of a literal in a
token listing (`literal`), and of a number in JSON (`json`). All rest on the exact digits of a
whole number or on the shortest digits that read back; they differ in when which is used and in
how the point is shown.
-/

namespace Lox.Numeral

/-- A run of zeros. -/
def zeros (count : Nat) : String :=
  String.ofList (List.replicate count '0')

namespace Decimal

/-- The digits of the coefficient, most significant first. -/
def digits (d : Decimal) : List Char :=
  (Nat.toDigits 10 d.coefficient)

/-- The decimal without an exponent and without a superfluous point: `1200`, `1.5`, `0.001`. -/
def positional (d : Decimal) : String :=
  let digits := d.digits
  match d.exponent with
  | .ofNat e => String.ofList digits ++ zeros e
  | .negSucc e =>
      let fraction := e + 1
      if fraction < digits.length then
        let whole := digits.length - fraction
        String.ofList (digits.take whole) ++ "." ++ String.ofList (digits.drop whole)
      else
        "0." ++ zeros (fraction - digits.length) ++ String.ofList digits

/-- The decimal with one digit before the point and a signed exponent: `1.25e+20`, `5e-7`. -/
def scientific (d : Decimal) : String :=
  let digits := d.digits
  let exponent := d.exponent + ((digits.length : Int) - 1)
  let fraction := if digits.length ≤ 1 then "" else "." ++ String.ofList (digits.drop 1)
  let sign := if exponent < 0 then "-" else "+"
  String.ofList (digits.take 1) ++ fraction ++ "e" ++ sign ++ toString exponent.natAbs

end Decimal

/-- A minus sign for a negative number. -/
def sign (negative : Bool) : String :=
  if negative then "-" else ""

/-- The shortest digits that read back, never with an exponent; a tie goes up. -/
def shortestText (x : Float) : String :=
  match Double.ofFloat x with
  | .notANumber => "NaN"
  | .infinite negative => sign negative ++ "inf"
  | .finite negative m => sign negative ++ (m.shortest .up).positional

/-- Sign and absolute value of a float that is a whole number. -/
def whole? (x : Float) : Option (Bool × Nat) :=
  match Double.ofFloat x with
  | .finite negative m => m.toNat?.map (negative, ·)
  | _ => none

/-- The text of a value: a whole number exactly, digit by digit and with the sign of zero, and
any other number by its shortest digits. -/
def plain (x : Float) : String :=
  match whole? x with
  | some (negative, n) => sign negative ++ toString n
  | none => shortestText x

/-- The text of a literal in a tree: as a value, but a whole number ends in `.0`. -/
def pointed (x : Float) : String :=
  match whole? x with
  | some (negative, n) => sign negative ++ toString n ++ ".0"
  | none => shortestText x

/-- The text of a literal in a token listing: a whole number below `2 ^ 63` ends in `.0` and has no
signed zero, and any other number is written by its shortest digits. -/
def literal (x : Float) : String :=
  match whole? x with
  | some (negative, n) =>
      if n < Nat.pow 2 63 then sign (negative && n != 0) ++ toString n ++ ".0" else shortestText x
  | none => shortestText x

/-- A number as JSON: shortest digits with a tie going to the even digit, positional from `1e-5`
to below `1e16` and scientific elsewhere; a number that is not finite becomes `null`. -/
def json (x : Float) : String :=
  match Double.ofFloat x with
  | .finite negative m =>
      let d := m.shortest .toEven
      let point := d.exponent + (d.digits.length : Int)
      let text :=
        if -5 < point ∧ point ≤ 16 then
          if 0 ≤ d.exponent then d.positional ++ ".0" else d.positional
        else d.scientific
      sign negative ++ text
  | _ => "null"

end Lox.Numeral
