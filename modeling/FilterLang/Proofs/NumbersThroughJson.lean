import FilterLang.Proofs.ComposedRoundings
import FilterLang.Proofs.JsonRoundTrip

/-!
# Numbers that are written and read

The reader of JSON texts rounds more than once, so a number need not come back.  What
comes back is a finite number with the same sign, four last places away at most.  Where
neither the significand nor the power of ten has to be rounded, as with fifteen digits
or fewer and a small power of ten, it is the number that was written.
-/

namespace FilterLang

-- Powers of natural numbers are `Nat.pow`, whatever else is in scope.
attribute [local instance (high)] instPowNat

namespace Json

open Magnitude

/-! ## Decimals that are rounded once -/

theorem Number.exists_start_exact {n : Nat} (haligned : 2 ^ shift n ∣ n) (hn : n ≤ 10 ^ 17) :
    ∃ start, ofRatio? n 1 = some start ∧ start.units = n * 2 ^ unitExponent := by
  have hplaces : shift n ≤ 4 := shift_le_of_lt (Nat.lt_of_le_of_lt hn (by decide))
  have hlt := lt_two_pow_shift n
  obtain ⟨significand, hsignificand⟩ := haligned
  rw [Nat.mul_comm] at hsignificand
  have hfits : significand ≤ 2 * leadingBit := by
    rw [Nat.pow_add] at hlt
    rw [two_leadingBit_eq]
    exact (Nat.lt_of_mul_lt_mul_right (hsignificand.symm.trans_lt hlt)).le
  rw [hsignificand]
  exact exists_ofRatio?_exact hfits (hplaces.trans (by decide))

/-- Neither the significand nor the power of ten needs to be rounded. -/
theorem Number.magnitudeOf?_exact {n : Nat} {exponent : Int} (haligned : 2 ^ shift n ∣ n)
    (hn : n ≤ 10 ^ 17) (hexponent : exponent.natAbs ≤ 22) :
    magnitudeOf? n exponent = ofDecimal? n exponent := by
  have hunit : 0 < 2 ^ unitExponent := Nat.two_pow_pos _
  have hten : ∀ k, 0 < 10 ^ k := fun k => Nat.pow_pos (by decide)
  obtain ⟨start, hstart, hunits⟩ := exists_start_exact haligned hn
  obtain ⟨power, hpower, hpowerUnits⟩ := powerOfTen?_exact hexponent
  rw [magnitudeOf?, hstart, Option.bind_eq_bind, Option.bind_some]
  by_cases hnonneg : 0 ≤ exponent
  · obtain ⟨k, rfl⟩ := Int.eq_ofNat_of_zero_le hnonneg
    rw [Int.natAbs_natCast] at hpower hpowerUnits
    have hlast : (-(k : Int)).toNat = 0 := by omega
    rw [if_pos hnonneg, if_pos (by omega), Int.toNat_natCast, hpower]
    change start.mul? power = _
    rw [mul?, ofDecimal?, hlast, Int.toNat_natCast, Nat.pow_zero, hunits, hpowerUnits]
    refine ofRatio?_congr (Nat.mul_pos hunit hunit) Nat.one_pos ?_
    rw [Nat.mul_one, Nat.mul_mul_mul_comm]
  · have htimes : (exponent.natAbs - 1) / 308 = 0 := by omega
    have hfirst : exponent.toNat = 0 := by omega
    have hlast : (-exponent).toNat = exponent.natAbs := by omega
    rw [if_neg hnonneg]
    dsimp only
    rw [htimes, Nat.mul_zero, Nat.sub_zero, hpower]
    change start.div? power = _
    rw [div?, ofDecimal?, hfirst, hlast, Nat.pow_zero, Nat.mul_one, hunits, hpowerUnits]
    refine ofRatio?_congr (Nat.mul_pos (hten _) hunit) (hten _) ?_
    rw [Nat.mul_assoc, Nat.mul_comm (2 ^ unitExponent)]

end Json

/-- Digits whose significand, as it is read, has no more than 53 significant bits, with a
power of ten that needs no rounding either. -/
structure Digits.RoundsOnce (d : Digits) : Prop where
  aligned : 2 ^ Magnitude.shift d.asRead.1 ∣ d.asRead.1
  exponent_le : d.asRead.2.natAbs ≤ 22

/-- Fifteen digits at most and a power of ten up to `10 ^ 22`, except for whole numbers
of sixteen digits, which are read with another zero behind the point. -/
structure Digits.IsShort (d : Digits) : Prop where
  length_le : d.digits.length ≤ 15
  exponent_le : (d.point - d.digits.length).natAbs ≤ 22
  point_ne : d.point ≠ 16

theorem Digits.IsShort.roundsOnce {d : Digits} (h : d.IsShort)
    (hdigit : ∀ c ∈ d.digits, c.isDigit = true) : d.RoundsOnce := by
  obtain ⟨hlength, hexponent, hpoint⟩ := h
  have hlt := Text.ofDigitChars_lt hdigit
  have hfits : 5 * 10 ^ 15 ≤ 2 * Magnitude.leadingBit := by decide
  by_cases hwhole : d.digits.length ≤ d.point ∧ d.point ≤ 16
  · -- The zero behind the point is a factor of two and a factor of five.
    have hread : d.asRead = (5 * (Nat.ofDigitChars 10 d.digits 0 *
        10 ^ (d.point.toNat - d.digits.length)) * 2 ^ 1, -1) := by
      rw [asRead, if_pos hwhole, Nat.pow_succ, Nat.pow_one, Nat.mul_comm 5, Nat.mul_assoc _ 5,
        ← Nat.mul_assoc]
    have hsmall : Nat.ofDigitChars 10 d.digits 0 * 10 ^ (d.point.toNat - d.digits.length) ≤
        10 ^ 15 := by
      refine (Nat.mul_le_mul_right _ hlt.le).trans ?_
      rw [← Nat.pow_add]
      exact Nat.pow_le_pow_right (by decide) (by omega)
    have haligned := Magnitude.aligned_of_significand
      ((Nat.mul_le_mul_left 5 hsmall).trans hfits) 1
    exact ⟨hread ▸ haligned, hread ▸ (by decide : (-1 : Int).natAbs ≤ 22)⟩
  · have hread : d.asRead = (Nat.ofDigitChars 10 d.digits 0 * 2 ^ 0,
        d.point - d.digits.length) := by
      rw [asRead, if_neg hwhole, Nat.pow_zero, Nat.mul_one]
    have hsmall : Nat.ofDigitChars 10 d.digits 0 ≤ 10 ^ 15 :=
      hlt.le.trans (Nat.pow_le_pow_right (by decide) hlength)
    have haligned := Magnitude.aligned_of_significand
      (hsmall.trans ((Nat.le_mul_of_pos_left _ (by decide)).trans hfits)) 0
    exact ⟨hread ▸ haligned, hread ▸ hexponent⟩

/-! ## Through the text -/

namespace Json

theorem runValue_finite {μ : Type} (negative : Bool) (magnitude : Magnitude) :
    runValue (μ := μ) none (Number.float (.finite negative magnitude)).text =
      (readNumber negative (magnitude.text numberStyle)).map
        fun (n, rest) => (.number n, rest) := by
  cases negative with
  | false =>
      have hnumeral := runValue_numeral (μ := μ) none (isNumeral_text magnitude) []
      rwa [List.append_nil] at hnumeral
  | true => exact runValue_negative none _

end Json

/-- What a written magnitude is read as. -/
def Magnitude.reread? (magnitude : Magnitude) : Option Magnitude :=
  if magnitude.units = 0 then some magnitude
  else Json.Number.magnitudeOf? (magnitude.digits .toEven).asRead.1
    (magnitude.digits .toEven).asRead.2

theorem Magnitude.readNumber_text_eq {μ : Type} (negative : Bool) (magnitude : Magnitude) :
    (Json.readNumber (μ := μ) negative (magnitude.text Json.numberStyle)).toOption =
      magnitude.reread?.map fun magnitude => (.float (.finite negative magnitude), []) := by
  rw [reread?]
  split
  next hunits =>
    have hread : Json.readNumber (μ := μ) negative (['0'] ++ '.' :: ['0']) = _ :=
      Json.readNumber_plain negative (Or.inl rfl) (by simp [Json.IsDigits]) rfl rfl (by decide)
    have hzero : Json.Number.magnitudeOf? 0 (-1) = ofDecimal? 0 (-1) :=
      Json.Number.magnitudeOf?_exact (Nat.dvd_zero _) (Nat.zero_le _) (by decide)
    rw [ofDecimal?_zero_eq_some_iff.2 hunits] at hzero
    have hfinish : Json.finishNumber (μ := μ) negative 0 (-1) [] =
        .ok (.float (.finite negative magnitude), []) := by
      rw [Json.finishNumber, hzero]
    rw [text, if_pos hunits]
    exact congrArg Except.toOption (hread.trans hfinish)
  next hunits =>
    rw [readNumber_text negative hunits, Json.finishNumber]
    cases Json.Number.magnitudeOf? _ _ <;> rfl

theorem Magnitude.reread?_of_roundsOnce {magnitude : Magnitude}
    (h : (magnitude.digits .toEven).RoundsOnce) : magnitude.reread? = some magnitude := by
  rw [reread?]
  split
  next => rfl
  next hunits =>
    have hasRead := asRead_digits .toEven hunits
    rw [Json.Number.magnitudeOf?_exact h.aligned hasRead.significand_le h.exponent_le,
      hasRead.nearest]

theorem Magnitude.exists_reread? (magnitude : Magnitude) :
    ∃ magnitude', magnitude.reread? = some magnitude' ∧
      magnitude.units ≤ magnitude'.units + 4 * magnitude.lastPlace ∧
      magnitude'.units ≤ magnitude.units + 4 * magnitude.lastPlace := by
  rw [reread?]
  split
  next => exact ⟨magnitude, rfl, Nat.le_add_right _ _, Nat.le_add_right _ _⟩
  next hunits => exact Json.Number.exists_magnitudeOf? hunits

theorem Magnitude.reread?_of_isShort {magnitude : Magnitude}
    (h : (magnitude.digits .toEven).IsShort) : magnitude.reread? = some magnitude := by
  by_cases hunits : magnitude.units = 0
  · exact if_pos hunits
  · have hleading : Digits.Leading (magnitude.digits .toEven).digits := leading_digits hunits
    exact reread?_of_roundsOnce (h.roundsOnce hleading.isDigit)

namespace Expr

open Interchange

variable {Op : Type} [OperatorForm Op]

theorem throughJson?_finite (id : String) (negative : Bool) (magnitude : Magnitude) :
    (number id (.finite negative magnitude) : Expr Op).throughJson? =
      magnitude.reread?.map fun magnitude => number id (.finite negative magnitude) := by
  have hread : numberReread? (.finite negative magnitude) =
      magnitude.reread?.map (.finite negative) := by
    rw [numberReread?, numberValue, Json.Value.reread?, Json.Number.reread?, Json.runValue_finite,
      Json.toOption_map, magnitude.readNumber_text_eq]
    cases magnitude.reread? <;> rfl
  rw [throughJson?_number, hread, Option.map_map]
  rfl

/-- A finite number comes back as one with the same sign, four last places away at
most, and as it was if its digits are rounded once, as short ones are. -/
theorem number_through_json (id : String) (negative : Bool) (magnitude : Magnitude) :
    (∃ magnitude' : Magnitude,
      (number id (.finite negative magnitude) : Expr Op).throughJson? =
        some (number id (.finite negative magnitude')) ∧
      magnitude.units ≤ magnitude'.units + 4 * magnitude.lastPlace ∧
      magnitude'.units ≤ magnitude.units + 4 * magnitude.lastPlace) ∧
    ((magnitude.digits .toEven).RoundsOnce ∨ (magnitude.digits .toEven).IsShort →
      (number id (.finite negative magnitude) : Expr Op).throughJson? =
        some (number id (.finite negative magnitude))) := by
  rw [throughJson?_finite]
  constructor
  · obtain ⟨magnitude', hmagnitude', hnear⟩ := magnitude.exists_reread?
    rw [hmagnitude']
    exact ⟨magnitude', rfl, hnear⟩
  · rintro (honce | hshort)
    · rw [Magnitude.reread?_of_roundsOnce honce]
      rfl
    · rw [Magnitude.reread?_of_isShort hshort]
      rfl

/-- One tenth, whose single digit is short. -/
theorem number_through_json_of_one_tenth :
    ((Magnitude.ofSignificand 7205759403792794 1018 (by decide) (by decide +kernel)).digits
      .toEven).IsShort ∧
    (number "" (.finite false (Magnitude.ofSignificand 7205759403792794 1018 (by decide)
        (by decide +kernel))) : Expr Token).throughJson? =
      some (number "" (.finite false (Magnitude.ofSignificand 7205759403792794 1018 (by decide)
        (by decide +kernel)))) := by
  have hshort : ((Magnitude.ofSignificand 7205759403792794 1018 (by decide)
      (by decide +kernel)).digits .toEven).IsShort :=
    ⟨by decide +kernel, by decide +kernel, by decide +kernel⟩
  exact ⟨hshort, (number_through_json "" false _).2 (Or.inr hshort)⟩

/-- A whole number of sixteen digits, exact as it stands, is read as the one before it. -/
theorem whole_number_is_lost :
    (number "" (.finite false (Magnitude.ofSignificand 7205759403792799 Magnitude.unitExponent
        (by decide) (by decide +kernel))) : Expr Token).throughJson? =
      some (number "" (.finite false (Magnitude.ofSignificand 7205759403792798
        Magnitude.unitExponent (by decide) (by decide +kernel)))) ∧
    ¬ ∃ value : Binary64,
      (number "" (.finite false (Magnitude.ofSignificand 7205759403792799 Magnitude.unitExponent
          (by decide) (by decide +kernel))) : Expr Token).throughJson? =
        some (number "" value) ∧
      value.sameValue (.finite false (Magnitude.ofSignificand 7205759403792799
        Magnitude.unitExponent (by decide) (by decide +kernel))) = true := by
  have hread : (Magnitude.ofSignificand 7205759403792799 Magnitude.unitExponent (by decide)
      (by decide +kernel)).reread? = some (Magnitude.ofSignificand 7205759403792798
        Magnitude.unitExponent (by decide) (by decide +kernel)) := by
    decide +kernel
  rw [throughJson?_finite, hread]
  refine ⟨rfl, ?_⟩
  rintro ⟨value, hvalue, hsame⟩
  cases hvalue
  revert hsame
  decide +kernel

end Expr

end FilterLang
