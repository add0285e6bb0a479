import FilterLang.Proofs.NearestMagnitudes
import FilterLang.Proofs.RenderedTokens

/-!
# Rendered numbers

A rendered number is rounded twice, to thousandths when it is written and to a
magnitude when it is read.  What is read is no farther from the thousandths than the
number was, since it is a nearest magnitude and the number is one of those it could
have been.  So it is within half of a thousandth again, and at a tie the number was
at a tie as well, which an even count of thousandths has resolved.  The text of what
is read is the same.
-/

namespace FilterLang

-- Powers of natural numbers are `Nat.pow`, whatever else is in scope.
attribute [local instance (high)] instPowNat

namespace Magnitude

variable {places : Nat}

/-- The error in the last decimal is the error in units on another scale. -/
theorem abs_sub_mul_div (n units places : Nat) :
    |(n - (units * 10 ^ places : Nat) / (2 ^ unitExponent : Nat) : ℚ)| =
      10 ^ places / 2 ^ unitExponent * |(units - inUnits n (10 ^ places) : ℚ)| := by
  have hpow : (0 : ℚ) < 10 ^ places := by positivity
  have hunit : (0 : ℚ) < 2 ^ unitExponent := by positivity
  have hscale : (n - (units * 10 ^ places : Nat) / (2 ^ unitExponent : Nat) : ℚ) =
      -(10 ^ places / 2 ^ unitExponent * (units - inUnits n (10 ^ places))) := by
    rw [inUnits]
    push_cast
    field_simp
    ring
  rw [hscale, abs_neg, abs_mul, abs_of_pos (div_pos hpow hunit)]

/-- Reading the rounded decimal and rounding again changes nothing. -/
theorem roundedTo_of_ofRatio? {places : Nat} {x y : Magnitude}
    (h : ofRatio? (x.roundedTo places) (10 ^ places) = some y) :
    y.roundedTo places = x.roundedTo places := by
  have hpow : 0 < 10 ^ places := Nat.pow_pos (by decide)
  have hunit : 0 < 2 ^ unitExponent := Nat.two_pow_pos _
  have hscale : (0 : ℚ) < 10 ^ places / 2 ^ unitExponent := by positivity
  have hround : |(x.roundedTo places - (x.units * 10 ^ places : Nat) /
      (2 ^ unitExponent : Nat) : ℚ)| ≤ 1 / 2 := abs_roundDiv_sub_le .toEven _ hunit
  have heven : |(x.roundedTo places - (x.units * 10 ^ places : Nat) /
      (2 ^ unitExponent : Nat) : ℚ)| = 1 / 2 → Even (x.roundedTo places) := even_roundDiv hunit
  have hnearest : |(x.roundedTo places - (y.units * 10 ^ places : Nat) /
      (2 ^ unitExponent : Nat) : ℚ)| ≤
      |(x.roundedTo places - (x.units * 10 ^ places : Nat) / (2 ^ unitExponent : Nat) : ℚ)| := by
    rw [abs_sub_mul_div, abs_sub_mul_div, ofRatio?_eq_some_iff.1 h]
    refine mul_le_mul_of_nonneg_left ?_ hscale.le
    exact abs_nearestUnits_sub_le_abs _ hpow x.aligned
  refine roundDiv_eq_of_abs_sub_le hunit (hnearest.trans hround) ?_
  intro htie
  exact heven (le_antisymm hround (htie ▸ hnearest))

/-- A rounded decimal is not too large, since half of its last place is less than
what is left above the largest magnitude. -/
theorem exists_ofRatio?_roundedTo (places : Nat) (x : Magnitude) :
    ∃ y, ofRatio? (x.roundedTo places) (10 ^ places) = some y := by
  have hunit : 0 < 2 ^ unitExponent := Nat.two_pow_pos _
  have hround : |(x.roundedTo places - (x.units * 10 ^ places : Nat) /
      (2 ^ unitExponent : Nat) : ℚ)| ≤ 1 / 2 := abs_roundDiv_sub_le .toEven _ hunit
  rw [abs_sub_mul_div, div_mul_eq_mul_div, div_le_iff₀ (by positivity)] at hround
  refine exists_ofRatio? (Nat.pow_pos (by decide)) ?_
  have hpow : (1 : ℚ) ≤ 10 ^ places := one_le_pow₀ (by norm_num)
  have hnear : |(x.units - inUnits (x.roundedTo places) (10 ^ places) : ℚ)| ≤
      1 / 2 * 2 ^ unitExponent :=
    (le_mul_of_one_le_left (abs_nonneg _) hpow).trans hround
  have hlast : (2 ^ unitExponent : ℚ) < 2 ^ (topExponent - 53) := by
    refine pow_lt_pow_right₀ (by norm_num) ?_
    rw [unitExponent_eq, topExponent_eq]
    decide
  have hlargest : (x.units + 2 ^ (topExponent - 53) : ℚ) ≤ bound := by
    exact_mod_cast x.units_add_le
  have hbelow := (abs_le.1 hnear).1
  linarith

end Magnitude

/-- What a rendered number is read as, its sign apart, is a finite number, and it
renders as that number. -/
theorem Expr.rendered_numbers_render_alike {Op : Type} [CanonicalText Op] (id id' : String)
    (negative : Bool) (x : Magnitude) :
    ∃ y : Magnitude,
      tokenize (number id (.finite negative x) : Expr Op).render =
        .ok ((if negative then [.symbol .minus] else []) ++ [.number (.finite false y)]) ∧
      (number id' (.finite negative y) : Expr Op).render =
        (number id (.finite negative x) : Expr Op).render := by
  obtain ⟨y, hy⟩ := x.exists_ofRatio?_roundedTo 3
  have hread : x.nearestThousandth = .finite false y := by
    rw [Magnitude.nearestThousandth]
    exact congrArg (Binary64.ofMagnitude? false) hy
  have htext : y.fixedText 3 = x.fixedText 3 := by
    have hround : roundDiv .toEven (y.units * 10 ^ 3) (2 ^ Magnitude.unitExponent) =
        roundDiv .toEven (x.units * 10 ^ 3) (2 ^ Magnitude.unitExponent) :=
      Magnitude.roundedTo_of_ofRatio? hy
    rw [Magnitude.fixedText, Magnitude.fixedText, hround]
  refine ⟨y, ?_, ?_⟩
  · have hscan := (readsAs_numberText (.finite negative x)).scan [] (follows_nil _)
    have hend : scanAll [] = .ok [] := scanAll_of_end rfl
    rw [List.append_nil, hend, numberTokens, hread] at hscan
    rw [tokenize_eq_ok_iff, render, String.toList_ofList, text, hscan]
    simp only [Except.map, List.append_nil]
  · rw [render, render, text, text, numberText, numberText, htext]

end FilterLang
