import FilterLang.Proofs.ReadNumbers
import FilterLang.Proofs.WrittenDecimals

/-!
# Several roundings in a row

A decimal in a JSON text is rounded more than once: its significand is, the power of
ten is, and so is their product or quotient.  The errors add up, so the last rounding
starts from a number that may lie some last places away from the decimal.
-/

namespace FilterLang

-- Powers of natural numbers are `Nat.pow`, whatever else is in scope.
attribute [local instance (high)] instPowNat

/-! ## Errors of products and quotients -/

section

variable {s t a p : ℚ}

theorem abs_mul_sub_mul_le (hs : 0 ≤ s) (ht : 0 ≤ t) (ha : |a - s| ≤ s / 2 ^ 53)
    (hp : |p - t| ≤ t / 2 ^ 53) : |a * p - s * t| ≤ 33 / 16 * (s * t / 2 ^ 53) := by
  have hsplit : a * p - s * t = (a - s) * (p - t) + s * (p - t) + (a - s) * t := by ring
  have hboth := mul_le_mul ha hp (abs_nonneg _) (by positivity)
  have hright := mul_le_mul_of_nonneg_left hp hs
  have hleft := mul_le_mul_of_nonneg_right ha ht
  have hpos : 0 ≤ s * t := mul_nonneg hs ht
  calc |a * p - s * t| ≤ |a - s| * |p - t| + s * |p - t| + |a - s| * t := by
        rw [hsplit]
        refine (abs_add_three _ _ _).trans_eq ?_
        rw [abs_mul, abs_mul, abs_mul, abs_of_nonneg hs, abs_of_nonneg ht]
    _ ≤ s / 2 ^ 53 * (t / 2 ^ 53) + s * (t / 2 ^ 53) + s / 2 ^ 53 * t :=
        add_le_add (add_le_add hboth hright) hleft
    _ = (2 + 1 / 2 ^ 53) * (s * t / 2 ^ 53) := by ring
    _ ≤ 33 / 16 * (s * t / 2 ^ 53) :=
        mul_le_mul_of_nonneg_right (by norm_num) (by positivity)

theorem abs_div_sub_div_le (hs : 0 ≤ s) (ht : 0 < t) (ha : |a - s| ≤ s / 2 ^ 53)
    (hp : |p - t| ≤ t / 2 ^ 53) : |a / p - s / t| ≤ 33 / 16 * (s / t / 2 ^ 53) := by
  have hlow : (1 - 1 / 2 ^ 53) * t ≤ p := by
    have hbelow := (abs_le.1 hp).1
    linarith
  have hp0 : 0 < p := lt_of_lt_of_le (mul_pos (by norm_num) ht) hlow
  have hsplit : a / p - s / t = ((a - s) * t - s * (p - t)) / (p * t) := by
    field_simp
    ring
  have hright := mul_le_mul_of_nonneg_left hp hs
  have hleft := mul_le_mul_of_nonneg_right ha ht.le
  rw [hsplit, abs_div, abs_of_pos (mul_pos hp0 ht), div_le_iff₀ (mul_pos hp0 ht)]
  calc |(a - s) * t - s * (p - t)| ≤ |a - s| * t + s * |p - t| := by
        refine (abs_sub _ _).trans_eq ?_
        rw [abs_mul, abs_mul, abs_of_nonneg hs, abs_of_pos ht]
    _ ≤ s / 2 ^ 53 * t + s * (t / 2 ^ 53) := add_le_add hleft hright
    _ ≤ 33 / 16 * (s / t / 2 ^ 53) * ((1 - 1 / 2 ^ 53) * t * t) := by
        have hcancel : 33 / 16 * (s / t / 2 ^ 53) * ((1 - 1 / 2 ^ 53) * t * t) =
            33 / 16 * (1 - 1 / 2 ^ 53) * (s * (t / 2 ^ 53)) := by
          field_simp
        have hpos : 0 ≤ s * (t / 2 ^ 53) := by positivity
        rw [hcancel]
        linarith
    _ ≤ 33 / 16 * (s / t / 2 ^ 53) * (p * t) := by
        refine mul_le_mul_of_nonneg_left ?_ (by positivity)
        exact mul_le_mul_of_nonneg_right hlow ht.le

end

namespace Magnitude

/-! ## Values of roundings -/

section

variable {num den : Nat} {magnitude : Magnitude}

theorem abs_units_sub_inUnits (num den : Nat) (magnitude : Magnitude) :
    |(magnitude.units - inUnits num den : ℚ)| =
      2 ^ unitExponent * |(magnitude.value - num / den : ℚ)| := by
  have hunit : (0 : ℚ) < 2 ^ unitExponent := by positivity
  rw [units_eq, inUnits, mul_div_assoc, ← mul_sub, abs_mul, abs_of_pos hunit]

theorem abs_value_sub_le (hden : 0 < den) (h : ofRatio? num den = some magnitude) :
    |(magnitude.value - num / den : ℚ)| ≤ num / den / 2 ^ 53 + 1 / 2 / 2 ^ unitExponent := by
  have hunit : (0 : ℚ) < 2 ^ unitExponent := by positivity
  have hpart : (0 : ℚ) ≤ num / den / 2 ^ 53 := by positivity
  have hhalf : (0 : ℚ) ≤ 1 / 2 / 2 ^ unitExponent := by positivity
  have hround := abs_nearestUnits_sub_le_mul num hden
  rw [← ofRatio?_eq_some_iff.1 h, abs_units_sub_inUnits, inUnits, mul_div_assoc,
    mul_div_assoc] at hround
  rcases hround with hround | hround
  · exact (le_of_mul_le_mul_left hround hunit).trans (le_add_of_nonneg_right hhalf)
  · rw [← le_div_iff₀' hunit] at hround
    exact hround.trans (le_add_of_nonneg_left hpart)

/-- From one on rounding is off by one part in `2 ^ 53` at most. -/
theorem abs_value_sub_le_of_le (hden : 0 < den) (hle : den ≤ num)
    (h : ofRatio? num den = some magnitude) :
    |(magnitude.value - num / den : ℚ)| ≤ num / den / 2 ^ 53 := by
  have hunit : (0 : ℚ) < 2 ^ unitExponent := by positivity
  have hden' : (0 : ℚ) < den := by exact_mod_cast hden
  have hone : (1 : ℚ) ≤ num / den := by
    rw [le_div_iff₀ hden', one_mul]
    exact_mod_cast hle
  have hlarge : (2 ^ 53 : ℚ) ≤ 2 ^ unitExponent := by
    refine pow_le_pow_right₀ (by norm_num) ?_
    rw [unitExponent_eq]
    decide
  have hround := abs_nearestUnits_sub_le_mul num hden
  rw [← ofRatio?_eq_some_iff.1 h, abs_units_sub_inUnits, inUnits, mul_div_assoc,
    mul_div_assoc] at hround
  refine le_of_mul_le_mul_left ?_ hunit
  rcases hround with hround | hround
  · exact hround
  · have hscaled := mul_le_mul hlarge hone (by norm_num) hunit.le
    refine hround.trans ?_
    rw [← mul_div_assoc]
    linarith

/-- A positive number is not near to zero in proportion. -/
theorem units_ne_zero_of_near {t : ℚ} (ht : 0 < t)
    (hnear : |(magnitude.value - t : ℚ)| ≤ t / 2 ^ 53) : magnitude.units ≠ 0 := by
  intro hzero
  have hbelow := (abs_le.1 hnear).1
  rw [value, hzero, Nat.cast_zero, zero_div] at hbelow
  linarith

theorem mul?_eq (a b : Magnitude) :
    ∃ num den : Nat, 0 < den ∧ a.mul? b = ofRatio? num den ∧
      (num / den : ℚ) = a.value * b.value := by
  refine ⟨_, _, ?_, rfl, ?_⟩
  · exact Nat.mul_pos (Nat.two_pow_pos _) (Nat.two_pow_pos _)
  · rw [value, value]
    push_cast
    rw [div_mul_div_comm]

theorem div?_eq (a b : Magnitude) :
    a.div? b = ofRatio? a.units b.units ∧ (a.units / b.units : ℚ) = a.value / b.value := by
  have hunit : (2 ^ unitExponent : ℚ) ≠ 0 := by positivity
  refine ⟨rfl, ?_⟩
  rw [units_eq, units_eq, mul_div_mul_left _ _ hunit]

/-- A whole number with 53 significant bits is not rounded. -/
theorem exists_ofRatio?_exact {significand places : Nat}
    (hsignificand : significand ≤ 2 * leadingBit) (hplaces : places ≤ 970) :
    ∃ magnitude, ofRatio? (significand * 2 ^ places) 1 = some magnitude ∧
      magnitude.units = significand * 2 ^ places * 2 ^ unitExponent := by
  have hpow : significand * 2 ^ places * 2 ^ unitExponent =
      significand * 2 ^ (places + unitExponent) := by
    rw [Nat.pow_add, Nat.mul_assoc]
  have hexponent : 53 + (places + unitExponent) < topExponent := by
    rw [unitExponent_eq, topExponent_eq]
    omega
  have hfits : significand * 2 ^ (places + unitExponent) < bound := by
    rw [two_leadingBit_eq] at hsignificand
    refine Nat.lt_of_le_of_lt (Nat.mul_le_mul_right _ hsignificand) ?_
    rw [← Nat.pow_add]
    exact Nat.pow_lt_pow_right (by decide) hexponent
  refine ⟨ofSignificand significand (places + unitExponent) hsignificand hfits, ?_, hpow.symm⟩
  rw [← ofRatio?_units]
  refine ofRatio?_congr Nat.one_pos (Nat.two_pow_pos _) ?_
  rw [hpow, Nat.mul_one]
  rfl

end

end Magnitude

/-! ## The steps of reading a decimal -/

namespace Json.Number

open Magnitude

variable {significand : Nat} {exponent : Int}

theorem ten_pow_fits {k : Nat} (hk : k ≤ 308) :
    (2 ^ unitExponent * 10 ^ k + 1 / 2 * 2 ^ (topExponent - 53) : ℚ) < bound := by
  -- The largest exponent has a name, so its power is computed in the kernel alone.
  obtain ⟨last, hlast⟩ : ∃ last, 308 = last := ⟨308, rfl⟩
  have hlarge : 2 * (2 ^ unitExponent * 10 ^ last) + 2 ^ (topExponent - 53) < 2 * bound := by
    rw [← hlast, bound, unitExponent_eq, topExponent_eq]
    decide +kernel
  have hpow : 10 ^ k ≤ 10 ^ last := Nat.pow_le_pow_right (by decide) (hlast ▸ hk)
  have hfits : 2 * (2 ^ unitExponent * 10 ^ k) + 2 ^ (topExponent - 53) < 2 * bound := by
    refine Nat.lt_of_le_of_lt (Nat.add_le_add_right ?_ _) hlarge
    exact Nat.mul_le_mul_left _ (Nat.mul_le_mul_left _ hpow)
  have hcast : (2 * (2 ^ unitExponent * 10 ^ k) + 2 ^ (topExponent - 53) : ℚ) < 2 * bound := by
    exact_mod_cast hfits
  linarith

theorem exists_powerOfTen? {k : Nat} (hk : k ≤ 308) :
    ∃ power, powerOfTen? k = some power ∧ |(power.value - 10 ^ k : ℚ)| ≤ 10 ^ k / 2 ^ 53 := by
  obtain ⟨power, hpower⟩ : ∃ power, powerOfTen? k = some power := by
    refine exists_ofRatio? Nat.one_pos ?_
    rw [inUnits, Nat.cast_one, div_one, Nat.cast_pow]
    exact ten_pow_fits hk
  have hnear := abs_value_sub_le_of_le Nat.one_pos (Nat.one_le_pow _ _ (by decide)) hpower
  rw [Nat.cast_one, div_one, Nat.cast_pow] at hnear
  exact ⟨power, hpower, hnear⟩

/-- The powers of ten up to `10 ^ 22` have no more than 53 significant bits. -/
theorem powerOfTen?_exact {k : Nat} (hk : k ≤ 22) :
    ∃ power, powerOfTen? k = some power ∧ power.units = 10 ^ k * 2 ^ unitExponent := by
  have hfive : 5 ^ k ≤ 2 * leadingBit :=
    (Nat.pow_le_pow_right (by decide) hk).trans (by decide)
  have hten : 10 ^ k = 5 ^ k * 2 ^ k := Nat.mul_pow 5 2 k
  rw [powerOfTen?, hten]
  exact exists_ofRatio?_exact hfive (by omega)

theorem exists_start (hne : significand ≠ 0) (hle : significand ≤ 10 ^ 17) :
    ∃ start, ofRatio? significand 1 = some start ∧
      |(start.value - significand : ℚ)| ≤ significand / 2 ^ 53 := by
  have hmax : 10 ^ 17 ≤ maxSignificand := by decide
  obtain ⟨start, hstart⟩ := Option.isSome_iff_exists.1 (isSome_ofRatio?_of_le (hle.trans hmax))
  have hnear := abs_value_sub_le_of_le Nat.one_pos (Nat.one_le_iff_ne_zero.2 hne) hstart
  rw [Nat.cast_one, div_one] at hnear
  exact ⟨start, hstart, hnear⟩

/-- The number is a quotient, rounded for the last time, that is near to the decimal. -/
def RoundsNear (significand : Nat) (exponent : Int) : Prop :=
  ∃ num den : Nat, 0 < den ∧ magnitudeOf? significand exponent = ofRatio? num den ∧
    |(num / den - significand * (10 : ℚ) ^ exponent : ℚ)| ≤
      25 / 8 * (significand * (10 : ℚ) ^ exponent / 2 ^ 53) + 1 / 20 / 2 ^ unitExponent

theorem roundsNear_of_nonneg (hne : significand ≠ 0) (hle : significand ≤ 10 ^ 17) {k : Nat}
    (hk : k ≤ 308) : RoundsNear significand k := by
  obtain ⟨start, hstart, ha⟩ := exists_start hne hle
  obtain ⟨power, hpower, hp⟩ := exists_powerOfTen? hk
  obtain ⟨num, den, hden, hmul, hvalue⟩ := start.mul?_eq power
  have hread : magnitudeOf? significand k = start.mul? power := by
    rw [magnitudeOf?, hstart, Option.bind_eq_bind, Option.bind_some, if_pos (by omega),
      if_pos (by omega), Int.toNat_natCast, hpower]
    rfl
  have hnear := abs_mul_sub_mul_le (by positivity) (by positivity) ha hp
  have hpos : (0 : ℚ) ≤ significand * 10 ^ k / 2 ^ 53 := by positivity
  have hhalf : (0 : ℚ) ≤ 1 / 20 / 2 ^ unitExponent := by positivity
  refine ⟨num, den, hden, hread.trans hmul, ?_⟩
  rw [hvalue, zpow_natCast]
  linarith

theorem roundsNear_of_neg (hne : significand ≠ 0) (hle : significand ≤ 10 ^ 17) {k : Nat}
    (hk : 0 < k) (hk' : k ≤ 308) : RoundsNear significand (-k) := by
  obtain ⟨start, hstart, ha⟩ := exists_start hne hle
  obtain ⟨power, hpower, hp⟩ := exists_powerOfTen? hk'
  obtain ⟨hdiv, hvalue⟩ := start.div?_eq power
  have htimes : (k - 1) / 308 = 0 := by omega
  have hread : magnitudeOf? significand (-k) = start.div? power := by
    rw [magnitudeOf?, hstart, Option.bind_eq_bind, Option.bind_some, if_neg (by omega),
      Int.natAbs_neg, Int.natAbs_natCast]
    dsimp only
    rw [htimes, Nat.mul_zero, Nat.sub_zero, hpower]
    rfl
  have hnear := abs_div_sub_div_le (by positivity) (by positivity) ha hp
  have hpos : (0 : ℚ) ≤ significand / 10 ^ k / 2 ^ 53 := by positivity
  have hhalf : (0 : ℚ) ≤ 1 / 20 / 2 ^ unitExponent := by positivity
  refine ⟨_, _, Nat.pos_of_ne_zero (units_ne_zero_of_near (by positivity) hp), hread.trans hdiv, ?_⟩
  rw [hvalue, zpow_neg, zpow_natCast, ← div_eq_mul_inv]
  linarith

/-- The significand divided by `10 ^ 308`, and rounded. -/
theorem exists_scaleDown {start : Magnitude} (hne : significand ≠ 0) (hle : significand ≤ 10 ^ 17)
    (ha : |(start.value - significand : ℚ)| ≤ significand / 2 ^ 53) :
    ∃ scaled, scaleDown start 1 = some scaled ∧
      |(scaled.value - significand / 10 ^ 308 : ℚ)| ≤
        25 / 8 * (significand / 10 ^ 308 / 2 ^ 53) + 1 / 2 / 2 ^ unitExponent := by
  obtain ⟨power, hpower, hp⟩ := exists_powerOfTen? (Nat.le_refl 308)
  have hstart0 := units_ne_zero_of_near (by positivity) ha
  have hpower0 := Nat.pos_of_ne_zero (units_ne_zero_of_near (by positivity) hp)
  obtain ⟨hdiv, hvalue⟩ := start.div?_eq power
  have hnear := abs_div_sub_div_le (by positivity) (by positivity) ha hp
  have hsmall : (significand / 10 ^ 308 : ℚ) ≤ 1 := by
    rw [div_le_one (by positivity)]
    have hpow : (10 ^ 17 : ℚ) ≤ 10 ^ 308 := pow_le_pow_right₀ (by norm_num) (by norm_num)
    refine le_trans ?_ hpow
    exact_mod_cast hle
  have hpositive : (0 : ℚ) ≤ significand / 10 ^ 308 := by positivity
  generalize (significand / 10 ^ 308 : ℚ) = w at hnear hpositive hsmall ⊢
  have hupper := (abs_le.1 hnear).2
  obtain ⟨scaled, hscaled⟩ : ∃ scaled, ofRatio? start.units power.units = some scaled := by
    refine exists_ofRatio? hpower0 (lt_of_le_of_lt ?_ (ten_pow_fits (by decide : 1 ≤ 308)))
    have hten : start.value / power.value ≤ 10 ^ 1 := by linarith
    rw [inUnits, mul_div_assoc, hvalue]
    exact add_le_add_left (mul_le_mul_of_nonneg_left hten (by positivity)) _
  have hround := abs_value_sub_le hpower0 hscaled
  rw [hvalue] at hround
  refine ⟨scaled, ?_, ?_⟩
  · rw [scaleDown, if_neg hstart0, hpower, Option.bind_eq_bind, Option.bind_some, hdiv, hscaled]
    rfl
  · have hsum := abs_sub_le scaled.value (start.value / power.value) w
    linarith

/-- Below `10 ^ -308` the significand is divided twice, and rounded in between. -/
theorem roundsNear_of_lt (hne : significand ≠ 0) (hle : significand ≤ 10 ^ 17) {k : Nat}
    (hk : 0 < k) (hk' : k ≤ 22) : RoundsNear significand (-(308 + k : Nat)) := by
  obtain ⟨start, hstart, ha⟩ := exists_start hne hle
  obtain ⟨scaled, hscaled, hnear⟩ := exists_scaleDown hne hle ha
  obtain ⟨power, hpower, hunits⟩ := powerOfTen?_exact hk'
  obtain ⟨hdiv, hvalue⟩ := scaled.div?_eq power
  have hexact : power.value = 10 ^ k := by
    rw [value, hunits]
    push_cast
    rw [mul_div_cancel_right₀ _ (by positivity)]
  have hdecimal : (significand * (10 : ℚ) ^ (-(308 + k : Nat) : ℤ)) =
      significand / 10 ^ 308 / 10 ^ k := by
    rw [zpow_neg, zpow_natCast, pow_add, div_div, div_eq_mul_inv]
  have htimes : (308 + k - 1) / 308 = 1 := by omega
  have hread : magnitudeOf? significand (-(308 + k : Nat)) = scaled.div? power := by
    rw [magnitudeOf?, hstart, Option.bind_eq_bind, Option.bind_some, if_neg (by omega),
      Int.natAbs_neg, Int.natAbs_natCast]
    dsimp only
    rw [htimes, hscaled, Nat.mul_one, Nat.add_sub_cancel_left, hpower]
    rfl
  refine ⟨_, _, ?_, hread.trans hdiv, ?_⟩
  · rw [hunits]
    exact Nat.mul_pos (Nat.pow_pos (by decide)) (Nat.two_pow_pos _)
  have hpos : (0 : ℚ) < 10 ^ k := by positivity
  have hten : (10 : ℚ) ≤ 10 ^ k := le_self_pow₀ (by norm_num) hk.ne'
  have hhalf : (1 / 2 / 2 ^ unitExponent : ℚ) ≤ 1 / 20 / 2 ^ unitExponent * 10 ^ k := by
    calc (1 / 2 / 2 ^ unitExponent : ℚ) = 1 / 20 / 2 ^ unitExponent * 10 := by ring
      _ ≤ 1 / 20 / 2 ^ unitExponent * 10 ^ k := mul_le_mul_of_nonneg_left hten (by positivity)
  rw [hvalue, hexact, hdecimal, ← sub_div, abs_div, abs_of_pos hpos, div_le_iff₀ hpos]
  generalize (significand / 10 ^ 308 : ℚ) = w at hnear ⊢
  have hcancel : 25 / 8 * (w / 10 ^ k / 2 ^ 53) * 10 ^ k = 25 / 8 * (w / 2 ^ 53) := by
    field_simp
  rw [add_mul, hcancel]
  exact hnear.trans (add_le_add_right hhalf _)

theorem RoundsNear.abs_inUnits_sub_le (h : RoundsNear significand exponent) :
    ∃ num den : Nat, 0 < den ∧ magnitudeOf? significand exponent = ofRatio? num den ∧
      |inUnits num den - inUnits (significand * 10 ^ exponent.toNat) (10 ^ (-exponent).toNat)| ≤
        25 / 8 * (inUnits (significand * 10 ^ exponent.toNat) (10 ^ (-exponent).toNat) / 2 ^ 53) +
          1 / 20 := by
  obtain ⟨num, den, hden, hread, hnear⟩ := h
  have hunit : (0 : ℚ) < 2 ^ unitExponent := by positivity
  refine ⟨num, den, hden, hread, ?_⟩
  rw [inUnits_decimal, inUnits, mul_div_assoc, ← mul_sub, abs_mul, abs_of_pos hunit]
  refine (mul_le_mul_of_nonneg_left hnear hunit.le).trans_eq ?_
  rw [mul_add, mul_div_cancel₀ _ hunit.ne']
  ring

theorem roundsNear (hne : significand ≠ 0) (hle : significand ≤ 10 ^ 17)
    (hlow : -324 ≤ exponent) (hhigh : exponent ≤ 308) : RoundsNear significand exponent := by
  obtain ⟨k, rfl⟩ | ⟨k, hk, hk', rfl⟩ | ⟨k, hk, hk', rfl⟩ : (∃ k : Nat, exponent = k) ∨
      (∃ k : Nat, 0 < k ∧ k ≤ 308 ∧ exponent = -k) ∨
      ∃ k : Nat, 0 < k ∧ k ≤ 22 ∧ exponent = -(308 + k : Nat) := by
    by_cases hnonneg : 0 ≤ exponent
    · exact Or.inl ⟨exponent.toNat, by omega⟩
    · by_cases hsmall : -308 ≤ exponent
      · exact Or.inr (Or.inl ⟨exponent.natAbs, by omega, by omega, by omega⟩)
      · exact Or.inr (Or.inr ⟨exponent.natAbs - 308, by omega, by omega, by omega⟩)
  · exact roundsNear_of_nonneg hne hle (by omega)
  · exact roundsNear_of_neg hne hle hk hk'
  · exact roundsNear_of_lt hne hle hk hk'

end Json.Number

/-! ## Rounding a number near to a decimal -/

namespace Magnitude

theorem abs_sub_le_mul_of_lt {a b places n : Nat} (ha : 2 ^ places ∣ a) (hb : 2 ^ places ∣ b)
    (h : |(a - b : ℚ)| < (n + 1 : Nat) * 2 ^ places) : |(a - b : ℚ)| ≤ n * 2 ^ places := by
  have hpos : (0 : ℚ) < 2 ^ places := by positivity
  obtain ⟨a, rfl⟩ := ha
  obtain ⟨b, rfl⟩ := hb
  push_cast at h ⊢
  rw [← mul_sub, abs_mul, abs_of_pos hpos, mul_comm] at h ⊢
  refine mul_le_mul_of_nonneg_right ?_ hpos.le
  have hlt := lt_of_mul_lt_mul_right h hpos.le
  have hint : |(a : ℤ) - b| < n + 1 := by exact_mod_cast hlt
  exact_mod_cast Int.le_of_lt_add_one hint

section

variable {num den : Nat} {magnitude : Magnitude}

theorem abs_units_sub_inUnits_le (hden : 0 < den) (h : ofRatio? num den = some magnitude) :
    |(magnitude.units - inUnits num den : ℚ)| ≤ 1 / 2 * 2 ^ shift magnitude.units := by
  rw [ofRatio?_eq_some_iff.1 h]
  refine (abs_nearestUnits_sub_le num hden).trans ?_
  refine mul_le_mul_of_nonneg_left ?_ (by norm_num)
  exact pow_le_pow_right₀ (by norm_num) (shift_le_shift_nearestUnits num den)

/-- Nothing is rounded from more than `2 ^ 53` times the last place. -/
theorem inUnits_lt_mul (hden : 0 < den) (h : ofRatio? num den = some magnitude) :
    inUnits num den < 2 ^ 53 * 2 ^ shift magnitude.units := by
  have hfloor : 2 ^ unitExponent * num / den + 1 ≤ 2 ^ 53 * 2 ^ shift magnitude.units := by
    rw [ofRatio?_eq_some_iff.1 h, ← Nat.pow_add]
    refine (lt_two_pow_shift _).trans_le (Nat.pow_le_pow_right (by decide) ?_)
    exact Nat.add_le_add_left (shift_le_shift_nearestUnits num den) _
  refine (inUnits_lt_floor_add_one num hden).trans_le ?_
  exact_mod_cast hfloor

end

section

variable {num den num' den' : Nat} {magnitude : Magnitude} (hden : 0 < den)
  (h : ofRatio? num den = some magnitude)
  (hnear : |inUnits num' den' - inUnits num den| ≤ 25 / 8 * (inUnits num den / 2 ^ 53) + 1 / 20)

include hden h hnear

/-- A number near to the decimal is less than four last places away. -/
theorem abs_inUnits_sub_units_le :
    |(inUnits num' den' - magnitude.units : ℚ)| ≤ 147 / 40 * 2 ^ shift magnitude.units := by
  have hhalf := abs_units_sub_inUnits_le hden h
  have hlt := inUnits_lt_mul hden h
  have hplace : (1 : ℚ) ≤ 2 ^ shift magnitude.units := one_le_pow₀ (by norm_num)
  have hsum := abs_sub_le (inUnits num' den') (inUnits num den) magnitude.units
  rw [abs_sub_comm (inUnits num den)] at hsum
  linarith

theorem exists_ofRatio?_of_near (hden' : 0 < den')
    (hfits : magnitude.units + 5 * 2 ^ (topExponent - 53) ≤ bound) :
    ∃ magnitude', ofRatio? num' den' = some magnitude' := by
  have hfits' : (magnitude.units + 5 * 2 ^ (topExponent - 53) : ℚ) ≤ bound := by
    exact_mod_cast hfits
  have htop : 53 + (topExponent - 53) = topExponent := by rw [topExponent_eq]
  have hshift : shift magnitude.units ≤ topExponent - 53 := by
    refine shift_le_of_lt ?_
    rw [htop]
    exact magnitude.fits
  have hplace : (2 ^ shift magnitude.units : ℚ) ≤ 2 ^ (topExponent - 53) :=
    pow_le_pow_right₀ (by norm_num) hshift
  have hpos : (0 : ℚ) < 2 ^ (topExponent - 53) := by positivity
  have hupper := (abs_le.1 (abs_inUnits_sub_units_le hden h hnear)).2
  refine exists_ofRatio? hden' ?_
  linarith

theorem shift_floor_le :
    shift (2 ^ unitExponent * num' / den') ≤ shift magnitude.units + 1 := by
  have hupper := (abs_le.1 (abs_inUnits_sub_units_le hden h hnear)).2
  have hfloor := floor_le_inUnits num' den'
  have hunits := lt_two_pow_shift magnitude.units
  have hpos : (0 : ℚ) < 2 ^ shift magnitude.units := by positivity
  refine shift_le_of_lt ?_
  rw [Nat.pow_add] at hunits
  rw [Nat.pow_add, Nat.pow_succ]
  generalize shift magnitude.units = places at *
  have hunits' : (magnitude.units : ℚ) < 2 ^ 53 * 2 ^ places := by exact_mod_cast hunits
  have hcast : ((2 ^ unitExponent * num' / den' : Nat) : ℚ) < 2 ^ 53 * (2 ^ places * 2) := by
    linarith
  exact_mod_cast hcast

/-- What is rounded from a number near to the decimal is four last places away at most. -/
theorem abs_nearestUnits_sub_units_le (hden' : 0 < den') :
    |(nearestUnits num' den' - magnitude.units : ℚ)| ≤ 4 * 2 ^ shift magnitude.units := by
  have haway := abs_inUnits_sub_units_le hden h hnear
  have hround := abs_nearestUnits_sub_le num' hden'
  have hsum := abs_sub_le (nearestUnits num' den' : ℚ) (inUnits num' den') magnitude.units
  have hpos : (0 : ℚ) < 2 ^ shift magnitude.units := by positivity
  by_cases hdvd : 2 ^ shift magnitude.units ∣ nearestUnits num' den'
  · have hshift := shift_floor_le hden h hnear
    have hplace : (2 ^ shift (2 ^ unitExponent * num' / den') : ℚ) ≤
        2 ^ (shift magnitude.units + 1) := pow_le_pow_right₀ (by norm_num) hshift
    rw [pow_succ] at hplace
    -- Both are multiples of the last place, so less than five of them are four at most.
    exact abs_sub_le_mul_of_lt hdvd magnitude.aligned (n := 4) (by push_cast; linarith)
  · have hsmall : nearestUnits num' den' < 2 ^ (52 + shift magnitude.units) := by
      by_contra hlarge
      exact hdvd (two_pow_dvd_of_le (aligned_nearestUnits num' den') (Nat.le_of_not_lt hlarge))
    obtain ⟨places, hplaces⟩ : ∃ places, shift magnitude.units = places + 1 := by
      refine Nat.exists_eq_succ_of_ne_zero ?_
      intro hzero
      rw [hzero] at hdvd
      exact hdvd (Nat.one_dvd _)
    have hexponent : 52 + shift magnitude.units = 53 + places := by omega
    rw [hexponent] at hsmall
    have hshift := (shift_le_shift_nearestUnits num' den').trans (shift_le_of_lt hsmall)
    have hplace : (2 ^ shift (2 ^ unitExponent * num' / den') : ℚ) ≤ 2 ^ places :=
      pow_le_pow_right₀ (by norm_num) hshift
    rw [hplaces, pow_succ] at haway hpos ⊢
    linarith

end

/-- The last place of a magnitude, in units. -/
def lastPlace (magnitude : Magnitude) : Nat :=
  2 ^ shift magnitude.units

end Magnitude

/-! ## What written numbers are read as -/

namespace Json.Number

open Magnitude

/-- The four largest numbers come back in some way. -/
theorem isSome_magnitudeOf?_largest : ∀ below ∈ [1, 2, 3, 4],
    (ofRatio? ((2 ^ 53 - below) * 2 ^ (topExponent - 53)) (2 ^ unitExponent)).all
      (fun magnitude => (magnitudeOf? (magnitude.digits .toEven).asRead.1
        (magnitude.digits .toEven).asRead.2).isSome) = true := by
  decide +kernel

theorem exists_magnitudeOf?_of_large {magnitude : Magnitude}
    (h : bound < magnitude.units + 5 * 2 ^ (topExponent - 53)) :
    ∃ magnitude', magnitudeOf? (magnitude.digits .toEven).asRead.1
      (magnitude.digits .toEven).asRead.2 = some magnitude' := by
  have hlarge : 2 ^ (52 + (topExponent - 53)) ≤ magnitude.units := by
    rw [bound_eq_mul, two_leadingBit_eq] at h
    rw [Nat.pow_add]
    omega
  obtain ⟨n, hn⟩ := two_pow_dvd_of_le magnitude.aligned hlarge
  have hfits := magnitude.fits
  rw [bound_eq_mul, two_leadingBit_eq] at h hfits
  rw [hn, Nat.mul_comm] at hfits
  rw [hn, Nat.mul_comm (2 ^ (topExponent - 53)), ← Nat.add_mul] at h
  have hlt := Nat.lt_of_mul_lt_mul_right hfits
  have hgt := Nat.lt_of_mul_lt_mul_right h
  obtain ⟨below, hbelow⟩ := Nat.exists_eq_add_of_le hlt.le
  have hmem : below ∈ [1, 2, 3, 4] := by
    simp only [List.mem_cons, List.not_mem_nil, or_false]
    omega
  have hread := isSome_magnitudeOf?_largest _ hmem
  rw [hbelow, Nat.add_sub_cancel, Nat.mul_comm, ← hn, ofRatio?_units, Option.all_some] at hread
  exact Option.isSome_iff_exists.1 hread

/-- A written number is read as a number four last places away at most. -/
theorem exists_magnitudeOf? {magnitude : Magnitude} (hunits : magnitude.units ≠ 0) :
    ∃ magnitude', magnitudeOf? (magnitude.digits .toEven).asRead.1
        (magnitude.digits .toEven).asRead.2 = some magnitude' ∧
      magnitude.units ≤ magnitude'.units + 4 * magnitude.lastPlace ∧
      magnitude'.units ≤ magnitude.units + 4 * magnitude.lastPlace := by
  have hasRead := asRead_digits .toEven hunits
  have hlarge := @exists_magnitudeOf?_of_large magnitude
  generalize (magnitude.digits .toEven).asRead.1 = significand at *
  generalize (magnitude.digits .toEven).asRead.2 = exponent at *
  have hnearest := hasRead.nearest
  have htop := exponent_le hasRead.significand_ne_zero hnearest
  have hden : 0 < 10 ^ (-exponent).toNat := Nat.pow_pos (by decide)
  have hrounds := roundsNear hasRead.significand_ne_zero hasRead.significand_le
    hasRead.exponent_ge htop
  obtain ⟨num, den, hden', hread, hnear⟩ := hrounds.abs_inUnits_sub_le
  obtain ⟨magnitude', hmagnitude'⟩ : ∃ magnitude', magnitudeOf? significand exponent =
      some magnitude' := by
    by_cases hfits : magnitude.units + 5 * 2 ^ (topExponent - 53) ≤ bound
    · rw [hread]
      exact exists_ofRatio?_of_near hden hnearest hnear hden' hfits
    · exact hlarge (Nat.lt_of_not_le hfits)
  have haway := abs_nearestUnits_sub_units_le hden hnearest hnear hden'
  rw [← ofRatio?_eq_some_iff.1 (hread.symm.trans hmagnitude')] at haway
  obtain ⟨hbelow, habove⟩ := abs_le.1 haway
  refine ⟨magnitude', hmagnitude', ?_⟩
  rw [lastPlace]
  generalize shift magnitude.units = places at *
  have hbelow' : (magnitude.units : ℚ) ≤ magnitude'.units + 4 * 2 ^ places := by linarith
  have habove' : (magnitude'.units : ℚ) ≤ magnitude.units + 4 * 2 ^ places := by linarith
  constructor
  · exact_mod_cast hbelow'
  · exact_mod_cast habove'

end Json.Number

end FilterLang
