import FilterLang.Binary64.Shortest
import FilterLang.Text.Characters

/-!
# Texts of numbers

Two families of texts.  A shortest text lays out the fewest digits that read
back, positionally or with an exponent; a style fixes which.  A text with fixed
places rounds the exact value, a tie to the even last digit.  Both keep the
sign of zero.
-/

namespace FilterLang

-- Powers of natural numbers are `Nat.pow`, whatever else is in scope.
attribute [local instance (high)] instPowNat

/-- How shortest digits are laid out. -/
structure NumberStyle where
  /-- Which of two equally near decimals is written. -/
  tie : Tie
  /-- Whether digits with this point are written without an exponent. -/
  positional : Int → Bool
  /-- Whether a whole number written positionally ends in `.0`. -/
  keepsFraction : Bool
  /-- Whether a non-negative exponent has a sign. -/
  signsExponent : Bool

namespace Digits

def positionalText (keepsFraction : Bool) (d : Digits) : List Char :=
  if d.point ≤ 0 then
    ['0', '.'] ++ List.replicate (-d.point).toNat '0' ++ d.digits
  else if d.digits.length ≤ d.point.toNat then
    d.digits ++ List.replicate (d.point.toNat - d.digits.length) '0' ++
      (if keepsFraction then ['.', '0'] else [])
  else
    d.digits.take d.point.toNat ++ ['.'] ++ d.digits.drop d.point.toNat

def exponentText (signsExponent : Bool) (d : Digits) : List Char :=
  let exponent := d.point - 1
  let sign :=
    if exponent < 0 then ['-'] else if signsExponent then ['+'] else []
  let fraction :=
    match d.digits.drop 1 with
    | [] => []
    | rest => '.' :: rest
  d.digits.take 1 ++ fraction ++ ['e'] ++ sign ++ Nat.toDigits 10 exponent.natAbs

end Digits

namespace Magnitude

def text (style : NumberStyle) (magnitude : Magnitude) : List Char :=
  if magnitude.units = 0 then
    if style.keepsFraction then ['0', '.', '0'] else ['0']
  else
    let digits := magnitude.digits style.tie
    if style.positional digits.point then digits.positionalText style.keepsFraction
    else digits.exponentText style.signsExponent

/-- The value rounded to `places` decimals. -/
def fixedText (places : Nat) (magnitude : Magnitude) : List Char :=
  let rounded := roundDiv .toEven (magnitude.units * 10 ^ places) (2 ^ unitExponent)
  Nat.toDigits 10 (rounded / 10 ^ places) ++ ['.'] ++
    Text.decimal places (rounded % 10 ^ places)

end Magnitude

namespace Binary64

def signText (negative : Bool) : List Char :=
  if negative then ['-'] else []

def text (style : NumberStyle) : Binary64 → List Char
  | .nan => "NaN".toList
  | .infinite negative => signText negative ++ "inf".toList
  | .finite negative magnitude => signText negative ++ magnitude.text style

end Binary64
end FilterLang
