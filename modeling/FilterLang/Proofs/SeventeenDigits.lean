import FilterLang.Proofs.NearestMagnitudes
import Mathlib.Algebra.Order.Field.Power

/-!
# Seventeen digits are enough

The decimals with seventeen significant digits lie closer together than magnitudes
do, and so do the multiples of `10 ^ -324`.  So one of the two neighbours of a
magnitude on such a grid reads back, and the search for the shortest digits ends
there at the latest.  Its coefficient is `10 ^ 17` at most and its exponent -324 at
least.
-/

namespace FilterLang

-- Powers of natural numbers are `Nat.pow`, whatever else is in scope.
attribute [local instance (high)] instPowNat

namespace Magnitude

/-- The number that a magnitude stands for. -/
def value (magnitude : Magnitude) : ℚ :=
  magnitude.units / 2 ^ unitExponent

theorem units_eq (magnitude : Magnitude) :
    (magnitude.units : ℚ) = 2 ^ unitExponent * magnitude.value := by
  have hunit : (2 ^ unitExponent : ℚ) ≠ 0 := by positivity
  rw [value, mul_div_cancel₀ _ hunit]

theorem ten_zpow_eq (exponent : Int) :
    (10 : ℚ) ^ exponent = 10 ^ exponent.toNat / 10 ^ (-exponent).toNat := by
  rcases Int.le_total 0 exponent with hle | hle
  · obtain ⟨k, rfl⟩ := Int.eq_ofNat_of_zero_le hle
    simp
  · obtain ⟨k, hk⟩ := Int.eq_ofNat_of_zero_le (Int.neg_nonneg_of_nonpos hle)
    obtain rfl : exponent = -k := by omega
    simp

/-- A decimal in units. -/
theorem inUnits_decimal (n : Nat) (exponent : Int) :
    inUnits (n * 10 ^ exponent.toNat) (10 ^ (-exponent).toNat) =
      2 ^ unitExponent * (n * (10 : ℚ) ^ exponent) := by
  rw [inUnits, ten_zpow_eq]
  push_cast
  ring

/-- A magnitude on the grid of a power of ten. -/
theorem grid_ratio (magnitude : Magnitude) (exponent : Int) :
    ((magnitude.units * 10 ^ (-exponent).toNat : Nat) /
      (2 ^ unitExponent * 10 ^ exponent.toNat : Nat) : ℚ) =
      magnitude.value / (10 : ℚ) ^ exponent := by
  rw [value, ten_zpow_eq]
  push_cast
  rw [div_div_div_eq]

theorem length_toDigits_spec {n : Nat} (hn : n ≠ 0) :
    10 ^ ((Nat.toDigits 10 n).length - 1) ≤ n ∧ n < 10 ^ (Nat.toDigits 10 n).length := by
  have hpos : 0 < (Nat.toDigits 10 n).length := List.length_pos_iff.2 Nat.toDigits_ne_nil
  constructor
  · by_cases hone : (Nat.toDigits 10 n).length - 1 = 0
    · rw [hone]
      exact Nat.one_le_iff_ne_zero.2 hn
    · by_contra hlt
      have hle := (Nat.length_toDigits_le_iff (by decide : 1 < 10) (Nat.pos_of_ne_zero hone)).2
        (Nat.lt_of_not_le hlt)
      omega
  · exact (Nat.length_toDigits_le_iff (by decide) hpos).1 (Nat.le_refl _)

theorem unit_le_places : 2 ^ unitExponent ≤ 10 ^ places := by
  have hexponent : unitExponent ≤ 3 * places := by
    rw [unitExponent_eq]
    decide
  calc 2 ^ unitExponent ≤ 2 ^ (3 * places) := Nat.pow_le_pow_right (by decide) hexponent
    _ = (2 ^ 3) ^ places := Nat.pow_mul 2 3 places
    _ ≤ 10 ^ places := Nat.pow_le_pow_left (by decide) places

/-- The place of the point bounds the number by powers of ten. -/
theorem point_spec {magnitude : Magnitude} (hunits : magnitude.units ≠ 0) :
    (10 : ℚ) ^ (magnitude.point - 1) ≤ magnitude.value ∧
      magnitude.value < (10 : ℚ) ^ magnitude.point := by
  have hunit : 0 < 2 ^ unitExponent := Nat.two_pow_pos _
  have hscaled : magnitude.units * 10 ^ places / 2 ^ unitExponent ≠ 0 := by
    rw [Nat.ne_zero_iff_zero_lt, Nat.div_pos_iff]
    refine ⟨hunit, unit_le_places.trans ?_⟩
    exact Nat.le_mul_of_pos_left _ (Nat.pos_of_ne_zero hunits)
  obtain ⟨hlow, hhigh⟩ := length_toDigits_spec hscaled
  have hpos : 0 < (Nat.toDigits 10 (magnitude.units * 10 ^ places / 2 ^ unitExponent)).length :=
    List.length_pos_iff.2 Nat.toDigits_ne_nil
  rw [point]
  generalize (Nat.toDigits 10 (magnitude.units * 10 ^ places / 2 ^ unitExponent)).length =
    count at hlow hhigh hpos
  rw [Nat.le_div_iff_mul_le hunit] at hlow
  rw [Nat.div_lt_iff_lt_mul hunit] at hhigh
  have hlow' : (10 ^ (count - 1) * 2 ^ unitExponent : ℚ) ≤ magnitude.units * 10 ^ places := by
    exact_mod_cast hlow
  have hhigh' : (magnitude.units * 10 ^ places : ℚ) < 10 ^ count * 2 ^ unitExponent := by
    exact_mod_cast hhigh
  have hten : (10 : ℚ) ≠ 0 := by norm_num
  have hpred : (count : ℤ) - places - 1 = (count - 1 : ℕ) - (places : ℤ) := by omega
  rw [hpred, zpow_sub₀ hten, zpow_sub₀ hten]
  simp only [zpow_natCast]
  rw [value, div_le_div_iff₀ (by positivity) (by positivity),
    div_lt_div_iff₀ (by positivity) (by positivity)]
  exact ⟨hlow', hhigh'⟩

/-- A number between two multiples of a power of ten is within half of it of one of them. -/
theorem exists_near_multiple (num : Nat) {den : Nat} (hden : 0 < den) :
    |((num / den : Nat) - num / den : ℚ)| ≤ 1 / 2 ∨
      |((num / den + 1 : Nat) - num / den : ℚ)| ≤ 1 / 2 := by
  have hround := abs_roundDiv_sub_le .toEven num hden
  have hle := le_roundDiv .toEven num den
  have hge := roundDiv_le .toEven num den
  obtain hsame | hnext : roundDiv .toEven num den = num / den ∨
      roundDiv .toEven num den = num / den + 1 := by
    omega
  · left
    rwa [hsame] at hround
  · right
    rwa [hnext] at hround

/-- A grid of decimals that is finer than the distances between magnitudes around one
of them, or than the units. -/
def FineGrid (magnitude : Magnitude) (exponent : Int) : Prop :=
  2 ^ 53 * (10 : ℚ) ^ exponent < magnitude.value ∨ 2 ^ unitExponent * (10 : ℚ) ^ exponent < 1

theorem ofDecimal?_of_near {magnitude : Magnitude} {exponent : Int} {n : Nat}
    (hfine : magnitude.FineGrid exponent)
    (hnear : |(n - magnitude.value / (10 : ℚ) ^ exponent : ℚ)| ≤ 1 / 2) :
    ofDecimal? n exponent = some magnitude := by
  have hten : (0 : ℚ) < (10 : ℚ) ^ exponent := by positivity
  have hunit : (0 : ℚ) < 2 ^ unitExponent := by positivity
  have herror : |(magnitude.units - inUnits (n * 10 ^ exponent.toNat) (10 ^ (-exponent).toNat) : ℚ)|
      ≤ 2 ^ unitExponent * (10 : ℚ) ^ exponent * (1 / 2) := by
    have hscale :
        (magnitude.units - inUnits (n * 10 ^ exponent.toNat) (10 ^ (-exponent).toNat) : ℚ) =
          -(2 ^ unitExponent * (10 : ℚ) ^ exponent *
            (n - magnitude.value / (10 : ℚ) ^ exponent)) := by
      rw [inUnits_decimal, units_eq]
      field_simp
      ring
    rw [hscale, abs_neg, abs_mul, abs_of_pos (mul_pos hunit hten)]
    exact mul_le_mul_of_nonneg_left hnear (mul_pos hunit hten).le
  rw [ofDecimal?, ofRatio?_eq_some_iff, eq_comm]
  refine nearestUnits_eq_of_near (Nat.pow_pos (by decide)) magnitude.aligned ?_
  rcases hfine with hfine | hfine
  · right
    rw [magnitude.units_eq] at herror ⊢
    have hscaled := mul_lt_mul_of_pos_left hfine hunit
    linarith
  · left
    linarith

/-- On a fine grid one of the neighbours reads back. -/
theorem exists_onGrid? (tie : Tie) {magnitude : Magnitude} {exponent : Int}
    (hfine : magnitude.FineGrid exponent) :
    ∃ coefficient, magnitude.onGrid? tie exponent = some coefficient := by
  have hden : 0 < 2 ^ unitExponent * 10 ^ exponent.toNat :=
    Nat.mul_pos (Nat.two_pow_pos _) (Nat.pow_pos (by decide))
  have hmultiple := exists_near_multiple (magnitude.units * 10 ^ (-exponent).toNat) hden
  have hreads : ∀ n : Nat, |(n - magnitude.value / (10 : ℚ) ^ exponent : ℚ)| ≤ 1 / 2 →
      magnitude.readsBack n exponent = true := by
    intro n hn
    rw [readsBack, ofDecimal?_of_near hfine hn, beq_self_eq_true]
  rw [grid_ratio] at hmultiple
  unfold onGrid?
  dsimp only
  rcases hmultiple with hbelow | habove
  · rw [hreads _ hbelow]
    cases magnitude.readsBack _ exponent <;> exact ⟨_, rfl⟩
  · rw [hreads _ habove]
    cases magnitude.readsBack _ exponent <;> exact ⟨_, rfl⟩

/-- The decimal that is taken is one of the two neighbours. -/
theorem onGrid?_le {tie : Tie} {magnitude : Magnitude} {exponent : Int} {coefficient : Nat}
    (h : magnitude.onGrid? tie exponent = some coefficient) :
    coefficient ≤ magnitude.units * 10 ^ (-exponent).toNat /
      (2 ^ unitExponent * 10 ^ exponent.toNat) + 1 := by
  unfold onGrid? at h
  dsimp only at h
  generalize magnitude.units * 10 ^ (-exponent).toNat = num,
    2 ^ unitExponent * 10 ^ exponent.toNat = den at h ⊢
  split at h
  · exact Option.some.inj h ▸ roundDiv_le tie num den
  · exact Option.some.inj h ▸ Nat.le_succ _
  · exact Option.some.inj h ▸ Nat.le_refl _
  · contradiction

theorem coefficient_le {tie : Tie} {magnitude : Magnitude} (hunits : magnitude.units ≠ 0)
    {count coefficient : Nat}
    (h : magnitude.onGrid? tie (magnitude.point - count) = some coefficient) :
    coefficient ≤ 10 ^ count := by
  have hden : (0 : ℚ) < (10 : ℚ) ^ (magnitude.point - count) := by positivity
  have hbelow : ((magnitude.units * 10 ^ (-(magnitude.point - count)).toNat /
      (2 ^ unitExponent * 10 ^ (magnitude.point - count).toNat) : Nat) : ℚ) <
        (10 ^ count : Nat) := by
    refine Nat.cast_div_le.trans_lt ?_
    rw [grid_ratio, div_lt_iff₀ hden]
    refine (point_spec hunits).2.trans_eq ?_
    push_cast
    rw [← zpow_natCast, ← zpow_add₀ (by norm_num), add_sub_cancel]
  have hlt : magnitude.units * 10 ^ (-(magnitude.point - count)).toNat /
      (2 ^ unitExponent * 10 ^ (magnitude.point - count).toNat) < 10 ^ count := by
    exact_mod_cast hbelow
  exact (onGrid?_le h).trans hlt

/-- Seventeen significant digits are fine enough, and so is the grid of `10 ^ -324`. -/
theorem fineGrid_point {magnitude : Magnitude} (hunits : magnitude.units ≠ 0) :
    magnitude.FineGrid (magnitude.point - 17) := by
  left
  have hlow := (point_spec hunits).1
  have hsplit : (10 : ℚ) ^ (magnitude.point - 1) =
      10 ^ 16 * (10 : ℚ) ^ (magnitude.point - 17) := by
    rw [← zpow_natCast, ← zpow_add₀ (by norm_num)]
    congr 1
    omega
  have hpos : (0 : ℚ) < (10 : ℚ) ^ (magnitude.point - 17) := by positivity
  rw [hsplit] at hlow
  linarith

theorem fineGrid_units (magnitude : Magnitude) : magnitude.FineGrid (-324) := by
  right
  have hlt : 2 ^ unitExponent < 10 ^ 324 := by
    rw [unitExponent_eq]
    decide +kernel
  have hcast : (2 ^ unitExponent : ℚ) < 10 ^ 324 := by exact_mod_cast hlt
  have hten : (10 : ℚ) ^ (-324 : ℤ) = 1 / 10 ^ 324 := by
    rw [zpow_neg, one_div]
    rfl
  rw [hten, mul_one_div, div_lt_one (by positivity)]
  exact hcast

theorem point_ge {magnitude : Magnitude} (hunits : magnitude.units ≠ 0) :
    -324 < magnitude.point := by
  have hhigh := (point_spec hunits).2
  have hone : (1 : ℚ) ≤ magnitude.units := by exact_mod_cast Nat.one_le_iff_ne_zero.2 hunits
  have hten : (10 : ℚ) ^ (-324 : ℤ) < magnitude.value := by
    rcases fineGrid_units magnitude with hfine | hfine
    · have hpos : (0 : ℚ) < (10 : ℚ) ^ (-324 : ℤ) := by positivity
      linarith
    · rw [units_eq] at hone
      exact lt_of_mul_lt_mul_left (hfine.trans_le hone) (by positivity)
  exact (zpow_lt_zpow_iff_right₀ (by norm_num : (1 : ℚ) < 10)).1 (hten.trans hhigh)

/-- A search along a range finds something no later than at a place where it would. -/
theorem exists_findSome?_range {α : Type} {f : Nat → Option α} {last count : Nat}
    (hlast : last < count) (h : ∃ a, f last = some a) :
    ∃ n ≤ last, ∃ a, f n = some a ∧ (List.range count).findSome? f = some a := by
  induction count with
  | zero => contradiction
  | succ count ih =>
      rw [List.range_succ, List.findSome?_append]
      cases hfound : (List.range count).findSome? f with
      | some a =>
          obtain ⟨n, hn, ha⟩ := List.exists_of_findSome?_eq_some hfound
          by_cases hlt : last < count
          · obtain ⟨n, hle, a', ha', hfound'⟩ := ih hlt
            rw [hfound] at hfound'
            exact ⟨n, hle, a', ha', hfound'⟩
          · have hbefore := List.mem_range.1 hn
            exact ⟨n, by omega, a, ha, rfl⟩
      | none =>
          by_cases hlt : last < count
          · obtain ⟨n, -, a, -, hfound'⟩ := ih hlt
            rw [hfound] at hfound'
            contradiction
          · obtain rfl : last = count := by omega
            obtain ⟨a, ha⟩ := h
            refine ⟨last, Nat.le_refl _, a, ha, ?_⟩
            simp [ha]

/-- The search ends with seventeen digits or at `10 ^ -324` at the latest. -/
theorem shortest_spec (tie : Tie) {magnitude : Magnitude} (hunits : magnitude.units ≠ 0) :
    (magnitude.shortest tie).1 ≤ 10 ^ 17 ∧ -324 ≤ (magnitude.shortest tie).2 := by
  have hpoint := point_ge hunits
  obtain ⟨last, hlast, hfine, hexponent⟩ : ∃ last < 17,
      magnitude.FineGrid (magnitude.point - (last + 1 : Nat)) ∧
        -324 ≤ magnitude.point - (last + 1 : Nat) := by
    by_cases hlarge : -307 ≤ magnitude.point
    · exact ⟨16, by decide, fineGrid_point hunits, by omega⟩
    · have hunit : magnitude.point - ((magnitude.point + 323).toNat + 1 : Nat) = -324 := by omega
      refine ⟨(magnitude.point + 323).toNat, by omega, ?_, by omega⟩
      rw [hunit]
      exact fineGrid_units magnitude
  obtain ⟨coefficient, hgrid⟩ := exists_onGrid? tie hfine
  obtain ⟨n, hn, found, hfound, hsearch⟩ := exists_findSome?_range
    (f := fun n => (magnitude.onGrid? tie (magnitude.point - (n + 1 : Nat))).map
      fun coefficient => (coefficient, magnitude.point - ((n + 1 : Nat) : Int)))
    hlast ⟨_, by rw [hgrid]; rfl⟩
  obtain ⟨coefficient', hgrid', rfl⟩ := Option.map_eq_some_iff.1 hfound
  have hshortest : magnitude.shortest tie =
      (coefficient', magnitude.point - ((n + 1 : Nat) : Int)) :=
    congrArg (Option.getD · (magnitude.units * 5 ^ unitExponent, -(unitExponent : Int))) hsearch
  rw [hshortest]
  constructor
  · exact (coefficient_le hunits hgrid').trans (Nat.pow_le_pow_right (by decide) (by omega))
  · dsimp only
    omega

theorem digits_spec (tie : Tie) {magnitude : Magnitude} (hunits : magnitude.units ≠ 0) :
    Nat.ofDigitChars 10 (magnitude.digits tie).digits 0 ≤ 10 ^ 17 ∧
      -324 ≤ (magnitude.digits tie).point - (magnitude.digits tie).digits.length := by
  obtain ⟨hcoefficient, hexponent⟩ := shortest_spec tie hunits
  obtain ⟨zeros, hvalue, hpoint⟩ :=
    Digits.exists_zeros (magnitude.shortest tie).1 (magnitude.shortest tie).2
  rw [digits, hpoint]
  constructor
  · refine le_trans ?_ hcoefficient
    exact (Nat.le_mul_of_pos_right _ (Nat.pow_pos (by decide))).trans_eq hvalue
  · omega

end Magnitude
end FilterLang
