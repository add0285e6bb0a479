import FilterLang.Binary64.Basic

/-!
# The interchange form of numbers

Sixty-four bits: a sign, eleven bits of exponent and fifty-two bits of
fraction.  Every NaN pattern denotes the one NaN; writing gives its quiet form.
-/

namespace FilterLang
namespace Binary64

-- Powers of natural numbers are `Nat.pow`, whatever else is in scope.
attribute [local instance (high)] instPowNat

open Magnitude (leadingBit)

def magnitudeBits (units : Nat) : Nat :=
  if units < leadingBit then units
  else
    let shift := Magnitude.shift units
    (shift + 1) * leadingBit + (units / 2 ^ shift - leadingBit)

/-- The exponent of infinities and NaN. -/
def topField : Nat := 2047

def signBit : Nat := 2048 * leadingBit

def signBits (negative : Bool) : Nat :=
  if negative then signBit else 0

def toBits : Binary64 → Nat
  | .nan => topField * leadingBit + leadingBit / 2
  | .infinite negative => signBits negative + topField * leadingBit
  | .finite negative magnitude => signBits negative + magnitudeBits magnitude.units

/-- Significand and shift that an exponent and a fraction stand for. -/
def significandOf (exponent fraction : Nat) : Nat × Nat :=
  if exponent = 0 then (fraction, 0) else (leadingBit + fraction, exponent - 1)

theorem significandOf_lt {fraction : Nat} (hfraction : fraction < leadingBit) (exponent : Nat) :
    (significandOf exponent fraction).1 < 2 * leadingBit := by
  unfold significandOf
  split <;> dsimp only <;> omega

theorem significandOf_fits {exponent fraction : Nat} (hfraction : fraction < leadingBit)
    (hexponent : exponent < topField) :
    (significandOf exponent fraction).1 * 2 ^ (significandOf exponent fraction).2 <
      Magnitude.bound := by
  have hshift : (significandOf exponent fraction).2 ≤ Magnitude.topExponent - 53 := by
    rw [Magnitude.topExponent_eq]
    unfold topField at hexponent
    unfold significandOf
    split <;> dsimp only <;> omega
  rw [Magnitude.bound_eq_mul]
  exact Nat.mul_lt_mul_of_lt_of_le (significandOf_lt hfraction exponent)
    (Nat.pow_le_pow_right (by decide) hshift) (Nat.two_pow_pos _)

/-- The number with these bits, of which the lowest sixty-four count. -/
def ofBits (bits : Nat) : Binary64 :=
  let negative := bits / signBit % 2 == 1
  let exponent := bits / leadingBit % 2048
  let fraction := bits % leadingBit
  have hfraction : fraction < leadingBit := Nat.mod_lt _ (by decide)
  if hexponent : exponent < topField then
    .finite negative (Magnitude.ofSignificand (significandOf exponent fraction).1
      (significandOf exponent fraction).2
      (Nat.le_of_lt (significandOf_lt hfraction exponent))
      (significandOf_fits hfraction hexponent))
  else if fraction = 0 then .infinite negative
  else .nan

end Binary64
end FilterLang
