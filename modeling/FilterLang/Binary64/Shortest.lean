import FilterLang.Binary64.Basic

/-!
# Shortest digits

A number is written with the fewest decimal digits that read back as the same
number.  For a growing count of digits the two neighbours of the number on the
grid of decimals with so many digits are tried; the first count at which one of
them reads back wins.  If both do, the nearer is taken.

Seventeen digits are always enough.  The exact expansion stands behind the
search, so the digits found read back in any case.
-/

namespace FilterLang

-- Powers of natural numbers are `Nat.pow`, whatever else is in scope.
attribute [local instance (high)] instPowNat

/-- Significant digits `d₁d₂…dₙ` and the place of the point: `0.d₁d₂…dₙ * 10 ^ point`. -/
structure Digits where
  digits : List Char
  point : Int

namespace Digits

/-- The digits of `coefficient * 10 ^ exponent`, without zeros at the end. -/
def ofDecimal (coefficient : Nat) (exponent : Int) : Digits :=
  let digits := Nat.toDigits 10 coefficient
  { digits := (digits.reverse.dropWhile (· == '0')).reverse
    point := digits.length + exponent }

end Digits

namespace Magnitude

/-- Whether the decimal `coefficient * 10 ^ exponent` reads as `magnitude`. -/
def readsBack (magnitude : Magnitude) (coefficient : Nat) (exponent : Int) : Bool :=
  ofDecimal? coefficient exponent == some magnitude

/-- So many places after the point show a digit of every magnitude but zero. -/
def places : Nat := 400

/-- The least `p` with `magnitude < 10 ^ p`, for a magnitude other than zero. -/
def point (magnitude : Magnitude) : Int :=
  (Nat.toDigits 10 (magnitude.units * 10 ^ places / 2 ^ unitExponent)).length - places

/-- The decimal on the grid of `10 ^ exponent` that reads back, if there is one. -/
def onGrid? (tie : Tie) (magnitude : Magnitude) (exponent : Int) : Option Nat :=
  let num := magnitude.units * 10 ^ (-exponent).toNat
  let den := 2 ^ unitExponent * 10 ^ exponent.toNat
  let below := num / den
  match magnitude.readsBack below exponent, magnitude.readsBack (below + 1) exponent with
  | true, true => some (roundDiv tie num den)
  | true, false => some below
  | false, true => some (below + 1)
  | false, false => none

/-- The shortest decimal that reads back, as coefficient and exponent. -/
def shortest (tie : Tie) (magnitude : Magnitude) : Nat × Int :=
  let point := magnitude.point
  let found? := (List.range 17).findSome? fun n =>
    let exponent := point - (n + 1 : Nat)
    (magnitude.onGrid? tie exponent).map fun coefficient => (coefficient, exponent)
  found?.getD (magnitude.units * 5 ^ unitExponent, -unitExponent)

def digits (tie : Tie) (magnitude : Magnitude) : Digits :=
  let decimal := magnitude.shortest tie
  Digits.ofDecimal decimal.1 decimal.2

end Magnitude
end FilterLang
