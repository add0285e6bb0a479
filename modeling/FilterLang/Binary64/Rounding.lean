/-!
# Rounding a quotient to the nearest integer

Every conversion of numbers rounds one exact quotient of natural numbers.  The
two ways differ only at a tie, where the quotient lies halfway between two
integers.
-/

namespace FilterLang

/-- Where a quotient halfway between two integers goes. -/
inductive Tie where
  | toEven
  | up
  deriving DecidableEq

/-- The integer nearest to `num / den`, a tie resolved as `tie` says. -/
def roundDiv (tie : Tie) (num den : Nat) : Nat :=
  let quotient := num / den
  let twice := 2 * (num % den)
  if twice < den then quotient
  else if den < twice then quotient + 1
  else
    match tie with
    | .toEven => quotient + quotient % 2
    | .up => quotient + 1

theorem le_roundDiv (tie : Tie) (num den : Nat) :
    num / den ≤ roundDiv tie num den := by
  unfold roundDiv
  dsimp only
  split
  · omega
  split
  · omega
  cases tie <;> dsimp only <;> omega

theorem roundDiv_le (tie : Tie) (num den : Nat) :
    roundDiv tie num den ≤ num / den + 1 := by
  unfold roundDiv
  dsimp only
  split
  · omega
  split
  · omega
  cases tie <;> dsimp only <;> omega

theorem roundDiv_mul (tie : Tie) (n : Nat) {den : Nat} (hden : 0 < den) :
    roundDiv tie (n * den) den = n := by
  unfold roundDiv
  simp only [Nat.mul_mod_left, Nat.mul_zero, hden, if_true]
  exact Nat.mul_div_cancel n hden

end FilterLang
