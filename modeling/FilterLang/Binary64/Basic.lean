import FilterLang.Binary64.Rounding

/-!
# Numbers with 53 significant bits

A finite number is a sign and a magnitude.  A magnitude counts units of
`2 ^ -1074`, the least positive number; not every count is a magnitude, since
all bits below the 53 leading ones must be zero.  Two structurally equal
numbers have the same bits.  The equality that the language compares values
with is another one: it identifies the two zeros and separates NaN from itself.
-/

namespace FilterLang

-- Powers of natural numbers are `Nat.pow`, whatever else is in scope.
attribute [local instance (high)] instPowNat

namespace Magnitude

/-- One unit is `2 ^ -unitExponent`, the least positive number. -/
@[irreducible] def unitExponent : Nat := 1074

theorem unitExponent_eq : unitExponent = 1074 := by rw [unitExponent]

/-- Every count of units is below `2 ^ topExponent`. -/
@[irreducible] def topExponent : Nat := 2098

theorem topExponent_eq : topExponent = 2098 := by rw [topExponent]

def bound : Nat := 2 ^ topExponent

/-- The first of the 53 bits of a full significand: `2 ^ 52`. -/
def leadingBit : Nat := 4503599627370496

theorem two_leadingBit_eq : 2 * leadingBit = 2 ^ (53 : Nat) := by decide

theorem bound_pos : 0 < bound := Nat.two_pow_pos topExponent

theorem bound_eq_mul : bound = 2 * leadingBit * 2 ^ (topExponent - 53) := by
  have hle : 53 ≤ topExponent := by
    rw [topExponent_eq]
    decide
  rw [bound, two_leadingBit_eq, ← Nat.pow_add, Nat.add_sub_of_le hle]

end Magnitude

/-- A representable non-negative number, in units of `2 ^ -1074`. -/
structure Magnitude where
  units : Nat
  fits : units < Magnitude.bound
  aligned : 2 ^ (units.log2 - 52) ∣ units
  deriving DecidableEq

namespace Magnitude

/-- A significand of 53 bits leaves no bit below the 53 leading ones. -/
theorem aligned_of_significand {significand : Nat} (h : significand ≤ 2 * leadingBit)
    (shift : Nat) :
    2 ^ ((significand * 2 ^ shift).log2 - 52) ∣ significand * 2 ^ shift := by
  rw [two_leadingBit_eq] at h
  by_cases hzero : significand * 2 ^ shift = 0
  · rw [hzero]
    exact Nat.dvd_zero _
  rcases Nat.lt_or_eq_of_le h with hlt | heq
  · have hlog : (significand * 2 ^ shift).log2 < 53 + shift := by
      rw [Nat.log2_lt hzero, Nat.pow_add]
      exact Nat.mul_lt_mul_of_pos_right hlt (Nat.two_pow_pos shift)
    exact Nat.dvd_trans (Nat.pow_dvd_pow 2 (by omega)) (Nat.dvd_mul_left _ _)
  · rw [heq, ← Nat.pow_add, Nat.log2_two_pow]
    exact Nat.pow_dvd_pow 2 (by omega)

def ofSignificand (significand shift : Nat) (h : significand ≤ 2 * leadingBit)
    (fits : significand * 2 ^ shift < bound) : Magnitude :=
  ⟨significand * 2 ^ shift, fits, aligned_of_significand h shift⟩

def zero : Magnitude :=
  ofSignificand 0 0 (Nat.zero_le _) (by
    rw [Nat.zero_mul]
    exact bound_pos)

def shift (units : Nat) : Nat :=
  units.log2 - 52

theorem roundDiv_significand_le (num den : Nat) :
    roundDiv .toEven num (den * 2 ^ shift (num / den)) ≤ 2 * leadingBit := by
  have hquotient : num / (den * 2 ^ shift (num / den)) < 2 * leadingBit := by
    rw [two_leadingBit_eq, ← Nat.div_div_eq_div_mul]
    apply Nat.div_lt_of_lt_mul
    rw [← Nat.pow_add]
    refine Nat.lt_of_lt_of_le Nat.lt_log2_self (Nat.pow_le_pow_right (by decide) ?_)
    unfold shift
    omega
  have := roundDiv_le .toEven num (den * 2 ^ shift (num / den))
  omega

/-- The magnitude nearest to `num / den`, ties to the even significand;
`none` beyond the largest one. -/
def ofRatio? (num den : Nat) : Option Magnitude :=
  let scaled := 2 ^ unitExponent * num
  let significand := roundDiv .toEven scaled (den * 2 ^ shift (scaled / den))
  if fits : significand * 2 ^ shift (scaled / den) < bound then
    some (ofSignificand significand (shift (scaled / den))
      (roundDiv_significand_le scaled den) fits)
  else none

/-- The magnitude nearest to `num * 10 ^ exponent`. -/
def ofDecimal? (num : Nat) (exponent : Int) : Option Magnitude :=
  ofRatio? (num * 10 ^ exponent.toNat) (10 ^ (-exponent).toNat)

def mul? (a b : Magnitude) : Option Magnitude :=
  ofRatio? (a.units * b.units) (2 ^ unitExponent * 2 ^ unitExponent)

def div? (a b : Magnitude) : Option Magnitude :=
  ofRatio? a.units b.units

end Magnitude

inductive Binary64 where
  | nan
  | infinite (negative : Bool)
  | finite (negative : Bool) (magnitude : Magnitude)
  deriving DecidableEq

namespace Binary64

/-- The number with a sign and a rounded magnitude, infinite if there is none. -/
def ofMagnitude? (negative : Bool) : Option Magnitude → Binary64
  | some magnitude => .finite negative magnitude
  | none => .infinite negative

def zero : Binary64 := .finite false .zero

/-- Equality of values: both zeros are equal, and NaN equals nothing. -/
def sameValue : Binary64 → Binary64 → Bool
  | .infinite s, .infinite t => s == t
  | .finite s a, .finite t b => a.units == b.units && (s == t || a.units == 0)
  | _, _ => false

/-- Reads digits, optionally followed by a point and more digits; the result
is the nearest number, infinite if that is too large. -/
def ofText? (text : List Char) : Option Binary64 :=
  let whole := text.takeWhile Char.isDigit
  if whole.isEmpty then none
  else
    match text.dropWhile Char.isDigit with
    | [] => some (ofMagnitude? false (Magnitude.ofDecimal? (Nat.ofDigitChars 10 whole 0) 0))
    | '.' :: fraction =>
        if fraction.isEmpty || !fraction.all Char.isDigit then none
        else
          some (ofMagnitude? false (Magnitude.ofDecimal?
            (Nat.ofDigitChars 10 (whole ++ fraction) 0) (-fraction.length)))
    | _ => none

end Binary64
end FilterLang
