import FilterLang.Proofs.JsonNumbers
import FilterLang.Proofs.SeventeenDigits

/-!
# The decimals that written numbers are read as

The reader of JSON texts gathers the digits of a number in one significand, those of
the whole part and of the fraction alike.  The digits of a written number never
exceed its limit, so it gathers all of them, the zeros in front and behind included,
and the exponent of ten is the one that the layout of the digits stands for.
-/

namespace FilterLang

-- Powers of natural numbers are `Nat.pow`, whatever else is in scope.
attribute [local instance (high)] instPowNat

/-- Significand and exponent of ten as they are read from written digits. -/
def Digits.asRead (d : Digits) : Nat × Int :=
  let significand := Nat.ofDigitChars 10 d.digits 0
  if d.digits.length ≤ d.point ∧ d.point ≤ 16 then
    -- The zeros up to the point are gathered as well, and the one behind it.
    (significand * 10 ^ (d.point.toNat - d.digits.length + 1), -1)
  else (significand, d.point - d.digits.length)

namespace Json

variable {μ : Type} (negative : Bool)

theorem le_ofDigitChars (digits : List Char) (value : Nat) :
    value ≤ Nat.ofDigitChars 10 digits value := by
  have hpow : 0 < 10 ^ digits.length := Nat.pow_pos (by decide)
  rw [Nat.ofDigitChars_eq_ofDigitChars_zero]
  exact (Nat.le_mul_of_pos_left value hpow).trans (Nat.le_add_right _ _)

/-- Digits within the limit are gathered to the last. -/
theorem gatherDigits_of_le {limit value : Nat} {digits rest : List Char}
    (hdigits : ∀ c ∈ digits, c.isDigit = true)
    (hlimit : Nat.ofDigitChars 10 digits value ≤ limit)
    (hrest : ∀ c ∈ rest.head?, c.isDigit = false) :
    gatherDigits limit value (digits ++ rest) = (Nat.ofDigitChars 10 digits value, rest) := by
  induction digits generalizing value with
  | nil => exact gatherDigits_stop limit value hrest
  | cons c digits ih =>
      rw [List.forall_mem_cons] at hdigits
      rw [Nat.ofDigitChars_cons, Nat.mul_comm] at hlimit ⊢
      have hle := (le_ofDigitChars digits _).trans hlimit
      rw [List.cons_append, gatherDigits, if_pos ⟨hdigits.1, hle⟩, ih hdigits.2 hlimit]

/-! ## Parts of a number -/

theorem readFraction_digits {significand : Nat} {start : Int} {digits rest : List Char}
    (hdigits : IsDigits digits)
    (hlimit : Nat.ofDigitChars 10 digits significand ≤ maxSignificand)
    (hrest : ∀ c ∈ rest.head?, c.isDigit = false) :
    readFraction (μ := μ) negative significand start (digits ++ rest) =
      finishFloat negative (Nat.ofDigitChars 10 digits significand) (start - digits.length)
        rest := by
  have hused : (digits ++ rest).length - rest.length = digits.length := by
    rw [List.length_append, Nat.add_sub_cancel]
  have hne : digits.length ≠ 0 := by simpa using hdigits.1
  have hstop := startsWithDigit_eq_false hrest
  rw [readFraction, gatherDigits_of_le hdigits.2 hlimit hrest]
  dsimp only
  rw [hused, hstop, if_neg (by decide), if_neg hne]

/-- The whole part is gathered, zero being a whole part of its own. -/
theorem readNumber_isWhole {whole rest : List Char} (hwhole : IsWhole whole)
    (hlimit : Nat.ofDigitChars 10 whole 0 ≤ maxSignificand)
    (hrest : ∀ c ∈ rest.head?, c.isDigit = false) :
    readNumber (μ := μ) negative (whole ++ rest) =
      finishWhole negative (Nat.ofDigitChars 10 whole 0) 0 rest := by
  have hstop := startsWithDigit_eq_false hrest
  rcases hwhole with rfl | hleading
  · rw [List.cons_append, List.nil_append, readNumber, if_pos rfl, hstop, if_neg (by decide)]
    rfl
  have hgather := gatherDigits_of_le hleading.isDigit hlimit hrest
  have hnone : rest.takeWhile Char.isDigit = [] :=
    (Text.takeWhile_isDigit (List.forall_mem_nil _) hrest).1
  cases whole with
  | nil => exact absurd rfl hleading.ne_nil
  | cons c whole =>
      have hc := hleading.isDigit c (List.mem_cons_self ..)
      have hzero : c ≠ '0' := by
        rintro rfl
        exact hleading.head rfl
      rw [List.cons_append] at hgather ⊢
      rw [readNumber, if_neg hzero, if_pos hc, hgather]
      dsimp only
      rw [hnone, List.length_nil, List.drop_zero]

theorem readNumber_point {whole digits rest : List Char} (hwhole : IsWhole whole)
    (hdigits : IsDigits digits)
    (hlimit : Nat.ofDigitChars 10 (whole ++ digits) 0 ≤ maxSignificand)
    (hrest : ∀ c ∈ rest.head?, c.isDigit = false) :
    readNumber (μ := μ) negative (whole ++ '.' :: (digits ++ rest)) =
      finishFloat negative (Nat.ofDigitChars 10 (whole ++ digits) 0) (-digits.length) rest := by
  have hpoint : ∀ c ∈ ('.' :: (digits ++ rest)).head?, c.isDigit = false := by simp
  have hfront : Nat.ofDigitChars 10 whole 0 ≤ maxSignificand := by
    rw [Nat.ofDigitChars_append] at hlimit
    exact (le_ofDigitChars digits _).trans hlimit
  rw [readNumber_isWhole negative hwhole hfront hpoint, finishWhole]
  rw [Nat.ofDigitChars_append] at hlimit ⊢
  rw [readFraction_digits negative hdigits hlimit hrest, Nat.cast_zero, Int.zero_sub]

theorem finishFloat_written (significand : Nat) (start : Int) {exponent : Int}
    (hexponent : exponent.natAbs ≤ maxExponent) :
    finishFloat (μ := μ) negative significand start
        ('e' :: (if exponent < 0 then ['-'] else ['+']) ++ Nat.toDigits 10 exponent.natAbs) =
      finishNumber negative significand (start + exponent) [] := by
  have hdigits := isDigits_toDigits exponent.natAbs
  have hvalue : Nat.ofDigitChars 10 (Nat.toDigits 10 exponent.natAbs) 0 = exponent.natAbs :=
    Nat.ofDigitChars_ten_toDigits
  have hlimit : Nat.ofDigitChars 10 (Nat.toDigits 10 exponent.natAbs) 0 ≤ maxExponent := by
    rwa [hvalue]
  have hnone : ∀ c ∈ ([] : List Char).head?, c.isDigit = false := by simp
  have hread : ∀ down, readExponentDigits (μ := μ) negative down significand start
      (Nat.toDigits 10 exponent.natAbs) =
        finishNumber negative significand
          (if down then start - exponent.natAbs else start + exponent.natAbs) [] := by
    intro down
    have hgather := gatherDigits_of_le hdigits.2 hlimit hnone
    rw [hvalue, List.append_nil] at hgather
    cases hlist : Nat.toDigits 10 exponent.natAbs with
    | nil => exact absurd hlist hdigits.1
    | cons c digits =>
        have hc := hdigits.2 c (by rw [hlist]; exact List.mem_cons_self ..)
        rw [hlist] at hgather
        simp only [readExponentDigits, hc, hgather]
        rfl
  have hmark : ∀ text, finishFloat (μ := μ) negative significand start ('e' :: text) =
      readExponent negative significand start text := by
    intro text
    rfl
  rw [List.cons_append, hmark]
  by_cases hsign : exponent < 0
  · have hsum : start - exponent.natAbs = start + exponent := by omega
    rw [if_pos hsign, List.cons_append, List.nil_append]
    exact (hread true).trans (by rw [if_pos rfl, hsum])
  · have hsum : start + exponent.natAbs = start + exponent := by omega
    rw [if_neg hsign, List.cons_append, List.nil_append]
    exact (hread false).trans (by rw [if_neg (by decide), hsum])

/-! ## Layouts -/

theorem ofDigitChars_zeros (zeros : Nat) (digits : List Char) (value : Nat) :
    Nat.ofDigitChars 10 (List.replicate zeros '0' ++ digits) value =
      Nat.ofDigitChars 10 digits (10 ^ zeros * value) := by
  rw [Nat.ofDigitChars_append, Nat.ofDigitChars_replicate_zero]

/-- A whole part and a fraction, and nothing behind. -/
theorem readNumber_plain {whole digits : List Char} {significand : Nat} {exponent : Int}
    (hwhole : IsWhole whole) (hdigits : IsDigits digits)
    (hgathered : Nat.ofDigitChars 10 (whole ++ digits) 0 = significand)
    (hexponent : -(digits.length : Int) = exponent) (hlimit : significand ≤ maxSignificand) :
    readNumber (μ := μ) negative (whole ++ '.' :: digits) =
      finishNumber negative significand exponent [] := by
  subst hgathered hexponent
  have hnone : ∀ c ∈ ([] : List Char).head?, c.isDigit = false := by simp
  have hread : readNumber (μ := μ) negative (whole ++ '.' :: (digits ++ [])) = _ :=
    readNumber_point negative hwhole hdigits hlimit hnone
  rwa [List.append_nil] at hread

/-- With the zeros up to the point and the one behind it there are seventeen digits at most. -/
theorem ofDigitChars_mul_pow_le {digits : List Char}
    (hdigits : ∀ c ∈ digits, c.isDigit = true) {point : Nat} (hlength : digits.length ≤ point)
    (hpoint : point ≤ 16) :
    Nat.ofDigitChars 10 digits 0 * 10 ^ (point - digits.length + 1) ≤ 10 ^ 17 := by
  have hlt := Text.ofDigitChars_lt hdigits
  calc Nat.ofDigitChars 10 digits 0 * 10 ^ (point - digits.length + 1)
      ≤ 10 ^ digits.length * 10 ^ (point - digits.length + 1) :=
        Nat.mul_le_mul_right _ hlt.le
    _ = 10 ^ (point + 1) := by
        rw [← Nat.pow_add]
        congr 1
        omega
    _ ≤ 10 ^ 17 := Nat.pow_le_pow_right (by decide) (by omega)

theorem readNumber_positionalText {d : Digits} (hd : Digits.Leading d.digits)
    (hvalue : Nat.ofDigitChars 10 d.digits 0 ≤ 10 ^ 17) (hpoint : d.point ≤ 16) :
    readNumber (μ := μ) negative (d.positionalText true) =
      finishNumber negative d.asRead.1 d.asRead.2 [] := by
  have hlength : 0 < d.digits.length := List.length_pos_iff.2 hd.ne_nil
  have hmax : 10 ^ 17 ≤ maxSignificand := by decide
  unfold Digits.positionalText Digits.asRead
  dsimp only
  by_cases hsmall : d.point ≤ 0
  · have hgathered : Nat.ofDigitChars 10
        (['0'] ++ (List.replicate (-d.point).toNat '0' ++ d.digits)) 0 =
          Nat.ofDigitChars 10 d.digits 0 := by
      rw [Nat.ofDigitChars_append, ofDigitChars_zeros]
      rfl
    have hexponent : -((List.replicate (-d.point).toNat '0' ++ d.digits).length : Int) =
        d.point - d.digits.length := by
      rw [List.length_append, List.length_replicate]
      omega
    rw [if_pos hsmall, if_neg (by omega), List.append_assoc]
    exact readNumber_plain negative (Or.inl rfl)
      (isDigits_zeros_append ⟨hd.ne_nil, hd.isDigit⟩ _) hgathered hexponent (hvalue.trans hmax)
  rw [if_neg hsmall]
  by_cases hwhole : d.digits.length ≤ d.point.toNat
  · have hpositional : (d.digits.length : Int) ≤ d.point ∧ d.point ≤ 16 := by omega
    have hgathered : Nat.ofDigitChars 10
        (d.digits ++ List.replicate (d.point.toNat - d.digits.length) '0' ++ ['0']) 0 =
        Nat.ofDigitChars 10 d.digits 0 * 10 ^ (d.point.toNat - d.digits.length + 1) := by
      have hzeros : List.replicate (d.point.toNat - d.digits.length) '0' ++ ['0'] =
          List.replicate (d.point.toNat - d.digits.length + 1) '0' :=
        List.replicate_succ'.symm
      rw [List.append_assoc, hzeros, Nat.ofDigitChars_append, Nat.ofDigitChars_replicate_zero,
        Nat.mul_comm]
    have hlimit := ofDigitChars_mul_pow_le hd.isDigit hwhole (by omega)
    rw [if_pos hwhole, if_pos hpositional]
    exact readNumber_plain negative (Or.inr (hd.append (isDigit_zeros _)))
      (by simp [IsDigits]) hgathered rfl (hlimit.trans hmax)
  · have hgathered : Nat.ofDigitChars 10
        (d.digits.take d.point.toNat ++ d.digits.drop d.point.toNat) 0 =
          Nat.ofDigitChars 10 d.digits 0 := by
      rw [List.take_append_drop]
    have hexponent : -((d.digits.drop d.point.toNat).length : Int) =
        d.point - d.digits.length := by
      rw [List.length_drop]
      omega
    rw [if_neg hwhole, if_neg (by omega), List.append_assoc]
    exact readNumber_plain negative (Or.inr (hd.take (by omega)))
      (isDigits_drop hd.isDigit (by omega)) hgathered hexponent (hvalue.trans hmax)

theorem finishWhole_exponent (significand dropped : Nat) (text : List Char) :
    finishWhole (μ := μ) negative significand dropped ('e' :: text) =
      finishFloat negative significand dropped ('e' :: text) := by
  rw [finishWhole_eq (by simp), if_neg (by simp)]

theorem readNumber_exponentText {d : Digits} (hd : Digits.Leading d.digits)
    (hvalue : Nat.ofDigitChars 10 d.digits 0 ≤ 10 ^ 17)
    (hpoint : ¬ (d.digits.length ≤ d.point ∧ d.point ≤ 16))
    (hexponent : (d.point - 1).natAbs ≤ maxExponent) :
    readNumber (μ := μ) negative (d.exponentText true) =
      finishNumber negative d.asRead.1 d.asRead.2 [] := by
  have hmax : 10 ^ 17 ≤ maxSignificand := by decide
  have hfloat : ∀ significand start, finishFloat (μ := μ) negative significand start _ = _ :=
    fun significand start => finishFloat_written negative significand start hexponent
  have hhead := hd.head
  have hdigit := hd.isDigit
  unfold Digits.exponentText Digits.asRead
  simp only [if_neg hpoint, ↓reduceIte]
  generalize (if d.point - 1 < 0 then ['-'] else ['+']) = sign at hfloat ⊢
  generalize Nat.toDigits 10 (d.point - 1).natAbs = written at hfloat ⊢
  have hmark : ∀ c ∈ ('e' :: (sign ++ written)).head?, c.isDigit = false := by simp
  cases hdigits : d.digits with
  | nil => exact absurd hdigits hd.ne_nil
  | cons c digits =>
      rw [hdigits] at hhead hdigit hvalue
      rw [List.forall_mem_cons] at hdigit
      have hwhole : IsWhole [c] := Or.inr ⟨by simp, by simpa using hdigit.1, hhead⟩
      cases digits with
      | nil =>
          have hstart : ((0 : Nat) : Int) + (d.point - 1) = d.point - [c].length := by simp
          have hread := readNumber_isWhole (μ := μ) negative hwhole
            (hvalue.trans hmax) hmark
          rw [finishWhole_exponent] at hread
          have hwritten := hread.trans (hfloat _ _)
          rw [hstart] at hwritten
          simpa using hwritten
      | cons e digits =>
          have hstart : -((e :: digits).length : Int) + (d.point - 1) =
              d.point - (c :: e :: digits).length := by
            simp only [List.length_cons]
            omega
          have hread := readNumber_point (μ := μ) negative hwhole
            ⟨by simp, hdigit.2⟩ (hvalue.trans hmax) hmark
          have hwritten := hread.trans (hfloat _ _)
          rw [hstart] at hwritten
          simpa using hwritten

end Json

/-- The decimal that is read has the value of the digits. -/
theorem Digits.nearest?_asRead (d : Digits) :
    Magnitude.ofDecimal? d.asRead.1 d.asRead.2 = d.nearest? := by
  unfold asRead nearest?
  dsimp only
  split
  next hwhole =>
    have hzeros :
        d.point - d.digits.length - (d.point.toNat - d.digits.length + 1 : Nat) = -1 := by
      omega
    have hmoved := Magnitude.ofDecimal?_mul_pow (Nat.ofDigitChars 10 d.digits 0)
      (d.point - d.digits.length) (d.point.toNat - d.digits.length + 1)
    rwa [hzeros] at hmoved
  next => rfl

theorem Digits.asRead_within {d : Digits} (hdigit : ∀ c ∈ d.digits, c.isDigit = true)
    (hvalue : Nat.ofDigitChars 10 d.digits 0 ≤ 10 ^ 17)
    (hexponent : -324 ≤ d.point - d.digits.length) :
    d.asRead.1 ≤ 10 ^ 17 ∧ -324 ≤ d.asRead.2 := by
  unfold asRead
  dsimp only
  split
  next hwhole =>
    have hlength : d.digits.length ≤ d.point.toNat := by omega
    refine ⟨Json.ofDigitChars_mul_pow_le hdigit hlength (by omega), ?_⟩
    dsimp only
    decide
  next => exact ⟨hvalue, hexponent⟩

/-! ## Written magnitudes -/

namespace Magnitude

/-- No magnitude lies beyond `10 ^ 309`. -/
theorem exponent_le {coefficient : Nat} {exponent : Int} {magnitude : Magnitude}
    (hcoefficient : coefficient ≠ 0) (h : ofDecimal? coefficient exponent = some magnitude) :
    exponent ≤ 308 := by
  have hlt := inUnits_lt_of_ofRatio? (Nat.pow_pos (by decide)) h
  have hbound : 2 * bound ≤ 2 ^ unitExponent * 10 ^ 309 := by
    rw [bound, topExponent_eq, unitExponent_eq]
    decide +kernel
  have hbound' : (2 * bound : ℚ) ≤ 2 ^ unitExponent * 10 ^ (309 : ℤ) := by exact_mod_cast hbound
  have hone : (1 : ℚ) ≤ coefficient := by exact_mod_cast Nat.one_le_iff_ne_zero.2 hcoefficient
  have hten : (0 : ℚ) < (10 : ℚ) ^ exponent := by positivity
  rw [inUnits_decimal] at hlt
  have hscaled := lt_of_mul_lt_mul_left (hlt.trans_le hbound') (by positivity)
  have hpow : (10 : ℚ) ^ exponent < 10 ^ (309 : ℤ) :=
    (le_mul_of_one_le_left hten.le hone).trans_lt hscaled
  have := (zpow_lt_zpow_iff_right₀ (by norm_num : (1 : ℚ) < 10)).1 hpow
  omega

/-- The point of the shortest digits is read in full where it is written. -/
theorem natAbs_point_le (tie : Tie) {magnitude : Magnitude} (hunits : magnitude.units ≠ 0) :
    ((magnitude.digits tie).point - 1).natAbs ≤ Json.maxExponent := by
  obtain ⟨hcoefficient, hexponent⟩ := shortest_spec tie hunits
  have hne : (magnitude.shortest tie).1 ≠ 0 := coefficient_shortest_ne_zero hunits
  have hlarge := exponent_le hne (ofDecimal?_shortest tie magnitude)
  have hlength : (Nat.toDigits 10 (magnitude.shortest tie).1).length ≤ 18 :=
    (Nat.length_toDigits_le_iff (by decide) (by decide)).2
      (Nat.lt_of_le_of_lt hcoefficient (by decide))
  have hpoint : (magnitude.digits tie).point =
      (Nat.toDigits 10 (magnitude.shortest tie).1).length + (magnitude.shortest tie).2 := rfl
  rw [hpoint]
  unfold Json.maxExponent
  omega

/-- What is known of the decimal that a written magnitude is read as. -/
structure AsRead (magnitude : Magnitude) (significand : Nat) (exponent : Int) : Prop where
  significand_ne_zero : significand ≠ 0
  significand_le : significand ≤ 10 ^ 17
  exponent_ge : -324 ≤ exponent
  nearest : ofDecimal? significand exponent = some magnitude

theorem AsRead.of_nearest {magnitude : Magnitude} (hunits : magnitude.units ≠ 0)
    {significand : Nat} {exponent : Int} (hsignificand : significand ≤ 10 ^ 17)
    (hexponent : -324 ≤ exponent) (h : ofDecimal? significand exponent = some magnitude) :
    magnitude.AsRead significand exponent := by
  refine ⟨?_, hsignificand, hexponent, h⟩
  rintro rfl
  exact hunits (ofDecimal?_zero_eq_some_iff.1 h)

theorem asRead_digits (tie : Tie) {magnitude : Magnitude} (hunits : magnitude.units ≠ 0) :
    magnitude.AsRead (magnitude.digits tie).asRead.1 (magnitude.digits tie).asRead.2 := by
  obtain ⟨hsignificand, hexponent⟩ := digits_spec tie hunits
  have hleading : Digits.Leading (magnitude.digits tie).digits := leading_digits hunits
  have hvalue := (magnitude.digits tie).nearest?_asRead
  rw [nearest?_digits] at hvalue
  obtain ⟨hle, hge⟩ := Digits.asRead_within hleading.isDigit hsignificand hexponent
  exact AsRead.of_nearest hunits hle hge hvalue

theorem readNumber_text {μ : Type} (negative : Bool) {magnitude : Magnitude}
    (hunits : magnitude.units ≠ 0) :
    Json.readNumber (μ := μ) negative (magnitude.text Json.numberStyle) =
      Json.finishNumber negative (magnitude.digits .toEven).asRead.1
        (magnitude.digits .toEven).asRead.2 [] := by
  have hleading : Digits.Leading (magnitude.digits .toEven).digits := leading_digits hunits
  have hvalue := (digits_spec .toEven hunits).1
  have hstyle : magnitude.text Json.numberStyle =
      if Json.numberStyle.positional (magnitude.digits .toEven).point then
        (magnitude.digits .toEven).positionalText true
      else (magnitude.digits .toEven).exponentText true := by
    rw [text, if_neg hunits]
    rfl
  rw [hstyle]
  split
  next hpositional =>
    simp only [Json.numberStyle, Bool.and_eq_true, decide_eq_true_eq] at hpositional
    exact Json.readNumber_positionalText negative hleading hvalue hpositional.2
  next hexponent =>
    simp only [Json.numberStyle, Bool.and_eq_true, decide_eq_true_eq] at hexponent
    have hpoint := natAbs_point_le .toEven hunits
    exact Json.readNumber_exponentText negative hleading hvalue (by omega) hpoint

end Magnitude
end FilterLang
