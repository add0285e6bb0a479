import FilterLang.Proofs.ShortestNumbers
import Mathlib.Algebra.Order.Field.Rat
import Mathlib.Algebra.Ring.Parity
import Mathlib.Data.Nat.Cast.Order.Field
import Mathlib.Tactic.FieldSimp
import Mathlib.Tactic.Linarith
import Mathlib.Tactic.Ring

/-!
# Rounding to the nearest magnitude

The magnitude of a quotient is a nearest one: no other is nearer, and it is off by
half of its last place at most.  Magnitudes keep a distance from each other that
grows with them, so a quotient close enough to a magnitude is rounded to it.

Everything is measured in units, as rational numbers.
-/

namespace FilterLang

-- Powers of natural numbers are `Nat.pow`, whatever else is in scope.
attribute [local instance (high)] instPowNat

/-! ## Rounding to an integer -/

section

variable {num den n : Nat}

theorem one_le_abs_sub {a b : Nat} (hne : a ≠ b) : (1 : ℚ) ≤ |(a - b : ℚ)| := by
  have hint : (1 : ℤ) ≤ |(a : ℤ) - b| := Int.one_le_abs (by omega)
  exact_mod_cast hint

theorem two_mul_roundDiv_mul (tie : Tie) (num : Nat) (hden : 0 < den) :
    2 * num ≤ 2 * (roundDiv tie num den * den) + den ∧
      2 * (roundDiv tie num den * den) ≤ 2 * num + den := by
  have hsplit := Nat.div_add_mod' num den
  have hmod := Nat.mod_lt num hden
  unfold roundDiv
  dsimp only
  generalize num / den = quotient, num % den = rest at hsplit hmod ⊢
  have hnext : (quotient + 1) * den = quotient * den + den := Nat.succ_mul quotient den
  split
  · omega
  split
  · omega
  cases tie with
  | up =>
      dsimp only
      omega
  | toEven =>
      dsimp only
      obtain heven | hodd : quotient % 2 = 0 ∨ quotient % 2 = 1 := by omega
      · rw [heven, Nat.add_zero]
        omega
      · rw [hodd]
        omega

/-- Halfway between two integers the even one is taken. -/
theorem even_roundDiv_of_tie
    (htie : 2 * num = 2 * (roundDiv .toEven num den * den) + den ∨
      2 * (roundDiv .toEven num den * den) = 2 * num + den) (hden : 0 < den) :
    Even (roundDiv .toEven num den) := by
  have hsplit := Nat.div_add_mod' num den
  have hmod := Nat.mod_lt num hden
  unfold roundDiv at htie ⊢
  dsimp only at htie ⊢
  generalize num / den = quotient, num % den = rest at hsplit hmod htie ⊢
  have hnext : (quotient + 1) * den = quotient * den + den := Nat.succ_mul quotient den
  split at htie
  · omega
  split at htie
  · omega
  · rw [if_neg ‹_›, if_neg ‹_›, Nat.even_iff]
    omega

theorem abs_roundDiv_sub_le (tie : Tie) (num : Nat) (hden : 0 < den) :
    |(roundDiv tie num den - num / den : ℚ)| ≤ 1 / 2 := by
  obtain ⟨habove, hbelow⟩ := two_mul_roundDiv_mul tie num hden
  have hden' : (0 : ℚ) < den := by exact_mod_cast hden
  have habove' : (2 * num : ℚ) ≤ 2 * (roundDiv tie num den * den) + den := by
    exact_mod_cast habove
  have hbelow' : (2 * (roundDiv tie num den * den) : ℚ) ≤ 2 * num + den := by
    exact_mod_cast hbelow
  rw [abs_le, neg_le_sub_iff_le_add, sub_le_iff_le_add', div_le_iff₀ hden',
    ← sub_le_iff_le_add, le_div_iff₀ hden']
  constructor <;> linarith

theorem even_roundDiv (hden : 0 < den)
    (h : |(roundDiv .toEven num den - num / den : ℚ)| = 1 / 2) :
    Even (roundDiv .toEven num den) := by
  have hden' : (den : ℚ) ≠ 0 := by positivity
  refine even_roundDiv_of_tie ?_ hden
  have hhalf : (0 : ℚ) ≤ 1 / 2 := by norm_num
  rcases (abs_eq hhalf).1 h with habove | hbelow
  · right
    field_simp at habove
    have hcast : (2 * (roundDiv .toEven num den * den) : ℚ) = 2 * num + den := by linarith
    exact_mod_cast hcast
  · left
    field_simp at hbelow
    have hcast : (2 * num : ℚ) = 2 * (roundDiv .toEven num den * den) + den := by linarith
    exact_mod_cast hcast

/-- The integer within one half is the rounded one, if it is even in case of a tie. -/
theorem roundDiv_eq_of_abs_sub_le (hden : 0 < den) (h : |(n - num / den : ℚ)| ≤ 1 / 2)
    (heven : |(n - num / den : ℚ)| = 1 / 2 → Even n) : roundDiv .toEven num den = n := by
  have hround := abs_roundDiv_sub_le .toEven num hden
  have hround' : |(roundDiv .toEven num den - num / den : ℚ)| = 1 / 2 →
      Even (roundDiv .toEven num den) := even_roundDiv hden
  generalize roundDiv .toEven num den = r at hround hround' ⊢
  generalize (num / den : ℚ) = x at h heven hround hround'
  by_contra hne
  have hapart := one_le_abs_sub hne
  have hsum : |(r : ℚ) - n| ≤ |(r - x : ℚ)| + |(n - x : ℚ)| := by
    rw [abs_sub_comm (n : ℚ) x]
    exact abs_sub_le (r : ℚ) x n
  have hr := hround' (by linarith)
  have hn := heven (by linarith)
  -- Both halves are needed in full, so the two even numbers are next to each other.
  have hone : |(r : ℤ) - n| = 1 := by
    have hcast : |(r : ℚ) - n| = 1 := by linarith
    exact_mod_cast hcast
  rw [Nat.even_iff] at hr hn
  rcases (abs_eq (by decide)).1 hone with h | h <;> omega

/-- No integer is nearer than the rounded one. -/
theorem abs_roundDiv_sub_le_abs (tie : Tie) (num : Nat) (hden : 0 < den) (n : Nat) :
    |(roundDiv tie num den - num / den : ℚ)| ≤ |(n - num / den : ℚ)| := by
  have hround := abs_roundDiv_sub_le tie num hden
  generalize roundDiv tie num den = r at hround ⊢
  generalize (num / den : ℚ) = x at hround ⊢
  by_cases hne : r = n
  · rw [hne]
  have hapart := one_le_abs_sub hne
  have hsum : |(r : ℚ) - n| ≤ |(r - x : ℚ)| + |(n - x : ℚ)| := by
    rw [abs_sub_comm (n : ℚ) x]
    exact abs_sub_le (r : ℚ) x n
  linarith

end

namespace Magnitude

/-! ## The last place of a count of units -/

section

variable {a b places units : Nat}

theorem lt_two_pow_shift (units : Nat) : units < 2 ^ (53 + shift units) := by
  refine Nat.lt_of_lt_of_le Nat.lt_log2_self (Nat.pow_le_pow_right (by decide) ?_)
  unfold shift
  omega

theorem two_pow_shift_le (h : 0 < shift units) : 2 ^ (52 + shift units) ≤ units := by
  have hlog : 52 + shift units = units.log2 := by
    unfold shift at h ⊢
    omega
  rw [hlog]
  refine Nat.log2_self_le ?_
  rintro rfl
  exact absurd h (by decide)

theorem shift_le_of_lt (h : units < 2 ^ (53 + places)) : shift units ≤ places := by
  by_contra hlarge
  have hle := two_pow_shift_le (Nat.zero_lt_of_lt (Nat.lt_of_not_le hlarge))
  have hpow : 2 ^ (53 + places) ≤ 2 ^ (52 + shift units) :=
    Nat.pow_le_pow_right (by decide) (by omega)
  omega

theorem le_shift_of_le (h : 2 ^ (52 + places) ≤ units) : places ≤ shift units := by
  have hlt := Nat.lt_of_le_of_lt h (lt_two_pow_shift units)
  have := (Nat.pow_lt_pow_iff_right (by decide)).1 hlt
  omega

theorem shift_mono (h : a ≤ b) : shift a ≤ shift b :=
  shift_le_of_lt (Nat.lt_of_le_of_lt h (lt_two_pow_shift b))

/-- A large magnitude leaves its lowest bits unused. -/
theorem two_pow_dvd_of_le (haligned : 2 ^ shift units ∣ units) (h : 2 ^ (52 + places) ≤ units) :
    2 ^ places ∣ units :=
  (Nat.pow_dvd_pow 2 (le_shift_of_le h)).trans haligned

theorem add_two_pow_le (hplaces : 2 ^ places ∣ a) (hplaces' : 2 ^ places ∣ b) (h : a < b) :
    a + 2 ^ places ≤ b := by
  obtain ⟨m, rfl⟩ := hplaces
  obtain ⟨n, rfl⟩ := hplaces'
  have hlt : m < n := Nat.lt_of_mul_lt_mul_left h
  calc 2 ^ places * m + 2 ^ places = 2 ^ places * (m + 1) := (Nat.mul_succ _ _).symm
    _ ≤ 2 ^ places * n := Nat.mul_le_mul_left _ hlt

theorem units_add_le (magnitude : Magnitude) :
    magnitude.units + 2 ^ (topExponent - 53) ≤ bound := by
  have htop : 52 + (topExponent - 53) + 1 = topExponent := by
    rw [topExponent_eq]
  have hfits := magnitude.fits
  unfold bound at hfits ⊢
  by_cases hlarge : 2 ^ (52 + (topExponent - 53)) ≤ magnitude.units
  · have hdvd : 2 ^ (topExponent - 53) ∣ magnitude.units :=
      two_pow_dvd_of_le magnitude.aligned hlarge
    exact add_two_pow_le hdvd (Nat.pow_dvd_pow 2 (Nat.sub_le _ _)) hfits
  · have hpow : 2 ^ (topExponent - 53) ≤ 2 ^ (52 + (topExponent - 53)) :=
      Nat.pow_le_pow_right (by decide) (by omega)
    have hdouble := Nat.pow_succ 2 (52 + (topExponent - 53))
    rw [Nat.succ_eq_add_one, htop] at hdouble
    omega

/-- The next magnitude below is at least one part in `2 ^ 53` away. -/
theorem add_mul_le_mul_of_lt (ha : 2 ^ shift a ∣ a) (hb : 2 ^ shift b ∣ b) (h : b < a) :
    a + 2 ^ 53 * b ≤ 2 ^ 53 * a := by
  have hplace := lt_two_pow_shift a
  rw [Nat.pow_add] at hplace
  by_cases hdvd : 2 ^ shift a ∣ b
  · have hgap := add_two_pow_le hdvd ha h
    omega
  -- The lower one lies below the power of two from which on the last place of the
  -- upper one is the last place, where its own last place is at most half as large.
  have hsmall : b < 2 ^ (52 + shift a) := by
    by_contra hlarge
    exact hdvd (two_pow_dvd_of_le hb (Nat.le_of_not_lt hlarge))
  obtain ⟨places, hplaces⟩ : ∃ places, shift a = places + 1 := by
    refine Nat.exists_eq_succ_of_ne_zero ?_
    intro hzero
    rw [hzero] at hdvd
    exact hdvd (Nat.one_dvd _)
  have hlarge : 2 ^ (52 + shift a) ≤ a := two_pow_shift_le (by omega)
  have hexponent : 52 + shift a = 53 + places := by omega
  rw [hexponent] at hsmall hlarge
  have hgap : b + 2 ^ places ≤ 2 ^ (53 + places) := by
    by_cases hhalf : 2 ^ (52 + places) ≤ b
    · exact add_two_pow_le (two_pow_dvd_of_le hb hhalf) (Nat.pow_dvd_pow 2 (by omega)) hsmall
    · rw [Nat.pow_add] at hhalf ⊢
      omega
  rw [hplaces, Nat.pow_succ] at hplace
  rw [Nat.pow_add] at hgap hlarge
  omega

/-- The next magnitude above is farther away than one part in `2 ^ 53`. -/
theorem add_mul_le_mul_of_gt (ha : 2 ^ shift a ∣ a) (hb : 2 ^ shift b ∣ b) (h : a < b) :
    a + 2 ^ 53 * a ≤ 2 ^ 53 * b := by
  have hplace := lt_two_pow_shift a
  rw [Nat.pow_add] at hplace
  have hgap := add_two_pow_le ha ((Nat.pow_dvd_pow 2 (shift_mono h.le)).trans hb) h
  omega

theorem le_mul_abs_sub (ha : 2 ^ shift a ∣ a) (hb : 2 ^ shift b ∣ b) (hne : a ≠ b) :
    (a : ℚ) ≤ 2 ^ 53 * |(a - b : ℚ)| := by
  rcases Nat.lt_or_gt_of_ne hne with hlt | hgt
  · have hcast : (a : ℚ) + 2 ^ 53 * a ≤ 2 ^ 53 * b := by
      exact_mod_cast add_mul_le_mul_of_gt ha hb hlt
    have hneg : (a - b : ℚ) < 0 := sub_neg.2 (by exact_mod_cast hlt)
    rw [abs_of_neg hneg]
    linarith
  · have hcast : (a : ℚ) + 2 ^ 53 * b ≤ 2 ^ 53 * a := by
      exact_mod_cast add_mul_le_mul_of_lt ha hb hgt
    have hpos : (0 : ℚ) < a - b := sub_pos.2 (by exact_mod_cast hgt)
    rw [abs_of_pos hpos]
    linarith

end

/-! ## The magnitude of a quotient -/

/-- A quotient in units. -/
def inUnits (num den : Nat) : ℚ :=
  2 ^ unitExponent * num / den

section

variable {num den : Nat}

theorem abs_mul_sub_inUnits (num den n places : Nat) :
    |(n * 2 ^ places - inUnits num den : ℚ)| =
      |(n - (2 ^ unitExponent * num : Nat) / (den * 2 ^ places : Nat) : ℚ)| * 2 ^ places := by
  have hpow : (0 : ℚ) < 2 ^ places := by positivity
  have hscale : inUnits num den =
      (2 ^ unitExponent * num : Nat) / (den * 2 ^ places : Nat) * 2 ^ places := by
    rw [inUnits]
    push_cast
    rw [← div_div, div_mul_cancel₀ _ hpow.ne']
  rw [hscale, ← sub_mul, abs_mul, abs_of_pos hpow]

theorem floor_le_inUnits (num den : Nat) :
    ((2 ^ unitExponent * num / den : Nat) : ℚ) ≤ inUnits num den := by
  have h : ((2 ^ unitExponent * num / den : Nat) : ℚ) ≤ (2 ^ unitExponent * num : Nat) / den :=
    Nat.cast_div_le
  rw [inUnits]
  push_cast at h ⊢
  exact h

theorem inUnits_lt_floor_add_one (num : Nat) (hden : 0 < den) :
    inUnits num den < (2 ^ unitExponent * num / den : Nat) + 1 := by
  have hden' : (0 : ℚ) < den := by exact_mod_cast hden
  have hlt := Nat.lt_div_mul_add (a := 2 ^ unitExponent * num) hden
  rw [inUnits, div_lt_iff₀ hden', add_mul, one_mul]
  exact_mod_cast hlt

/-- The count of units is a nearest one among those with the same last place. -/
theorem abs_nearestUnits_sub_le_abs_mul (num : Nat) (hden : 0 < den) (n : Nat) :
    |(nearestUnits num den - inUnits num den : ℚ)| ≤
      |(n * 2 ^ shift (2 ^ unitExponent * num / den) - inUnits num den : ℚ)| := by
  rw [nearestUnits]
  generalize shift (2 ^ unitExponent * num / den) = places
  push_cast
  rw [abs_mul_sub_inUnits, abs_mul_sub_inUnits]
  refine mul_le_mul_of_nonneg_right ?_ (by positivity)
  exact abs_roundDiv_sub_le_abs .toEven _ (Nat.mul_pos hden (Nat.two_pow_pos places)) n

/-- Rounding is off by half of the last place at most. -/
theorem abs_nearestUnits_sub_le (num : Nat) (hden : 0 < den) :
    |(nearestUnits num den - inUnits num den : ℚ)| ≤
      1 / 2 * 2 ^ shift (2 ^ unitExponent * num / den) := by
  rw [nearestUnits]
  generalize shift (2 ^ unitExponent * num / den) = places
  push_cast
  rw [abs_mul_sub_inUnits]
  refine mul_le_mul_of_nonneg_right ?_ (by positivity)
  exact abs_roundDiv_sub_le .toEven _ (Nat.mul_pos hden (Nat.two_pow_pos places))

/-- Rounding is off by one part in `2 ^ 53` at most, or by half a unit. -/
theorem abs_nearestUnits_sub_le_mul (num : Nat) (hden : 0 < den) :
    |(nearestUnits num den - inUnits num den : ℚ)| ≤ inUnits num den / 2 ^ 53 ∨
      |(nearestUnits num den - inUnits num den : ℚ)| ≤ 1 / 2 := by
  have hround := abs_nearestUnits_sub_le num hden
  have hfloor := floor_le_inUnits num den
  generalize 2 ^ unitExponent * num / den = quotient at hround hfloor
  by_cases hzero : shift quotient = 0
  · right
    rwa [hzero, pow_zero, mul_one] at hround
  · left
    have hlarge := two_pow_shift_le (Nat.pos_of_ne_zero hzero)
    rw [Nat.pow_add] at hlarge
    have hlarge' : (2 ^ 52 * 2 ^ shift quotient : ℚ) ≤ quotient := by exact_mod_cast hlarge
    linarith

theorem inUnits_lt_of_ofRatio? {magnitude : Magnitude} (hden : 0 < den)
    (h : ofRatio? num den = some magnitude) : inUnits num den < 2 * bound := by
  have hfits : (magnitude.units : ℚ) < bound := by exact_mod_cast magnitude.fits
  have hone : (1 : ℚ) ≤ bound := by exact_mod_cast bound_pos
  rw [ofRatio?_eq_some_iff.1 h] at hfits
  rcases abs_nearestUnits_sub_le_mul num hden with hround | hround
  · have hlow := (abs_le.1 hround).1
    linarith
  · have hlow := (abs_le.1 hround).1
    linarith

theorem aligned_nearestUnits (num den : Nat) :
    2 ^ shift (nearestUnits num den) ∣ nearestUnits num den :=
  aligned_of_significand (roundDiv_significand_le _ _) _

/-- The last place of a quotient is no larger than that of its magnitude. -/
theorem shift_le_shift_nearestUnits (num den : Nat) :
    shift (2 ^ unitExponent * num / den) ≤ shift (nearestUnits num den) := by
  rw [nearestUnits]
  generalize hquotient : 2 ^ unitExponent * num / den = quotient
  by_cases hzero : shift quotient = 0
  · omega
  refine le_shift_of_le ?_
  have hlarge := two_pow_shift_le (Nat.pos_of_ne_zero hzero)
  have hround := le_roundDiv .toEven (2 ^ unitExponent * num) (den * 2 ^ shift quotient)
  rw [← Nat.div_div_eq_div_mul, hquotient] at hround
  rw [Nat.pow_add] at hlarge ⊢
  refine Nat.mul_le_mul_right _ (le_trans ?_ hround)
  exact (Nat.le_div_iff_mul_le (Nat.two_pow_pos _)).2 hlarge

/-- No magnitude is nearer to a quotient than the rounded one. -/
theorem abs_nearestUnits_sub_le_abs (num : Nat) (hden : 0 < den) {units : Nat}
    (haligned : 2 ^ shift units ∣ units) :
    |(nearestUnits num den - inUnits num den : ℚ)| ≤ |(units - inUnits num den : ℚ)| := by
  have hplace := abs_nearestUnits_sub_le_abs_mul num hden
  have hfloor := floor_le_inUnits num den
  generalize 2 ^ unitExponent * num / den = quotient at hplace hfloor
  by_cases hdvd : 2 ^ shift quotient ∣ units
  · obtain ⟨n, rfl⟩ := hdvd
    have hn := hplace n
    push_cast
    rwa [mul_comm (2 ^ shift quotient : ℚ)]
  -- A magnitude with a smaller last place lies below a power of two that the
  -- quotient has reached, and that power has the larger last place.
  have hsmall : units < 2 ^ (52 + shift quotient) := by
    by_contra hlarge
    exact hdvd (two_pow_dvd_of_le haligned (Nat.le_of_not_lt hlarge))
  have hlarge : 2 ^ (52 + shift quotient) ≤ quotient := by
    refine two_pow_shift_le (Nat.pos_of_ne_zero ?_)
    intro hzero
    rw [hzero] at hdvd
    exact hdvd (Nat.one_dvd _)
  rw [Nat.pow_add] at hsmall hlarge
  have hsmall' : (units : ℚ) ≤ 2 ^ 52 * 2 ^ shift quotient := by exact_mod_cast hsmall.le
  have hlarge' : (2 ^ 52 * 2 ^ shift quotient : ℚ) ≤ inUnits num den := by
    refine le_trans ?_ hfloor
    exact_mod_cast hlarge
  refine (hplace (2 ^ 52)).trans ?_
  push_cast
  rw [abs_of_nonpos (by linarith), abs_of_nonpos (by linarith)]
  linarith

/-- A quotient close to a magnitude, in proportion to it, is rounded to it. -/
theorem nearestUnits_eq_of_near (hden : 0 < den) {units : Nat}
    (haligned : 2 ^ shift units ∣ units)
    (hnear : 2 * |(units - inUnits num den : ℚ)| < 1 ∨
      2 ^ 54 * |(units - inUnits num den : ℚ)| < units) :
    nearestUnits num den = units := by
  by_contra hne
  have hnearest := abs_nearestUnits_sub_le_abs num hden haligned
  have hapart := le_mul_abs_sub haligned (aligned_nearestUnits num den) (Ne.symm hne)
  have hone := one_le_abs_sub (Ne.symm hne)
  have hsum : |(units - nearestUnits num den : ℚ)| ≤
      |(units - inUnits num den : ℚ)| + |(nearestUnits num den - inUnits num den : ℚ)| := by
    rw [abs_sub_comm (nearestUnits num den : ℚ)]
    exact abs_sub_le _ _ _
  rcases hnear with hnear | hnear <;> linarith

/-- Below the largest magnitude and half of its last place nothing is too large. -/
theorem exists_ofRatio? (hden : 0 < den)
    (h : inUnits num den + 1 / 2 * 2 ^ (topExponent - 53) < bound) :
    ∃ magnitude, ofRatio? num den = some magnitude := by
  have hfloor := floor_le_inUnits num den
  have hround := abs_nearestUnits_sub_le num hden
  have hsmall : 2 ^ unitExponent * num / den < bound := by
    have hpos : (0 : ℚ) < 2 ^ (topExponent - 53) := by positivity
    have hcast : ((2 ^ unitExponent * num / den : Nat) : ℚ) < bound := by linarith
    exact_mod_cast hcast
  have hshift : shift (2 ^ unitExponent * num / den) ≤ topExponent - 53 := by
    refine shift_le_of_lt (hsmall.trans_le ?_)
    rw [bound]
    refine Nat.pow_le_pow_right (by decide) ?_
    omega
  have hpow : (2 ^ shift (2 ^ unitExponent * num / den) : ℚ) ≤ 2 ^ (topExponent - 53) :=
    pow_le_pow_right₀ (by norm_num) hshift
  have hfits : nearestUnits num den < bound := by
    have hupper := (abs_le.1 hround).2
    have hcast : (nearestUnits num den : ℚ) < bound := by linarith
    exact_mod_cast hcast
  exact ⟨⟨nearestUnits num den, hfits, aligned_nearestUnits num den⟩,
    ofRatio?_eq_some_iff.2 rfl⟩

end
end Magnitude
end FilterLang
