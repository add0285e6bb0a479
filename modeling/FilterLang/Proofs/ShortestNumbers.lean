import FilterLang.Proofs.NumberTexts
import Mathlib.Data.List.DropRight

/-!
# The shortest digits read back

A magnitude is found again from the digits it is written with.  Each decimal that
the search accepts has been read back there, and the exact expansion behind the
search is no more than the magnitude itself, so rounding has nothing to do.

Reading a decimal depends on its value alone: zeros may be moved between the
coefficient and the exponent.  So the digits may be laid out with zeros on either
side, and the zeros at their end may be cut.
-/

namespace FilterLang

-- Powers of natural numbers are `Nat.pow`, whatever else is in scope.
attribute [local instance (high)] instPowNat

/-! ## Leading digits -/

/-- Digits of a number that is written without superfluous zeros. -/
structure Digits.Leading (digits : List Char) : Prop where
  ne_nil : digits ≠ []
  isDigit : ∀ c ∈ digits, c.isDigit = true
  head : digits.head? ≠ some '0'

theorem Digits.leading_toDigits {n : Nat} (hn : n ≠ 0) : Leading (Nat.toDigits 10 n) where
  ne_nil := Nat.toDigits_ne_nil
  isDigit := by
    intro c hc
    exact Nat.isDigit_of_mem_toDigits (by decide) (by decide) hc
  head := by
    induction n using Nat.strongRecOn with
    | ind n ih =>
        rw [Nat.toDigits_eq_if (by decide)]
        split
        next hlt =>
          have hall : ∀ n < 10, n ≠ 0 → n.digitChar ≠ '0' := by decide
          simpa using hall n hlt hn
        next hge =>
          have hhead := ih (n / 10) (by omega) (by omega)
          have hne : Nat.toDigits 10 (n / 10) ≠ [] := Nat.toDigits_ne_nil
          cases hdigits : Nat.toDigits 10 (n / 10) with
          | nil => contradiction
          | cons c digits =>
              rw [hdigits] at hhead
              exact hhead

theorem Digits.Leading.append {digits back : List Char} (h : Leading digits)
    (hback : ∀ c ∈ back, c.isDigit = true) : Leading (digits ++ back) where
  ne_nil := by simp [h.ne_nil]
  isDigit := by
    rw [List.forall_mem_append]
    exact ⟨h.isDigit, hback⟩
  head := by
    rw [List.head?_append_of_ne_nil _ h.ne_nil]
    exact h.head

theorem Digits.Leading.take {digits : List Char} (h : Leading digits) {count : Nat}
    (hcount : 0 < count) : Leading (digits.take count) where
  ne_nil := by
    simp only [ne_eq, List.take_eq_nil_iff, not_or]
    exact ⟨by omega, h.ne_nil⟩
  isDigit := by
    intro c hc
    exact h.isDigit c (List.mem_of_mem_take hc)
  head := by
    rw [List.head?_take, if_neg (by omega)]
    exact h.head

/-- Cutting zeros at the end leaves a front that keeps the leading digit. -/
theorem Digits.leading_ofDecimal {coefficient : Nat} (hne : coefficient ≠ 0) (exponent : Int) :
    Leading (ofDecimal coefficient exponent).digits := by
  have hleading := leading_toDigits hne
  have hdigits : (ofDecimal coefficient exponent).digits =
      (Nat.toDigits 10 coefficient).rdropWhile (· == '0') := rfl
  have hfront : (ofDecimal coefficient exponent).digits <+: Nat.toDigits 10 coefficient := by
    rw [hdigits]
    exact List.rdropWhile_prefix _ _
  have hne' : (ofDecimal coefficient exponent).digits ≠ [] := by
    rw [hdigits, ne_eq, List.rdropWhile_eq_nil_iff]
    intro hnil
    cases hlist : Nat.toDigits 10 coefficient with
    | nil => exact hleading.ne_nil hlist
    | cons c rest =>
        have hzero := hnil c (by rw [hlist]; simp)
        have hc : c = '0' := by simpa using hzero
        apply hleading.head
        rw [hlist, hc]
        rfl
  constructor
  · exact hne'
  · intro c hc
    exact hleading.isDigit c (hfront.subset hc)
  · obtain ⟨back, hback⟩ := hfront
    have hhead := hleading.head
    rw [← hback] at hhead
    cases hcut : (ofDecimal coefficient exponent).digits with
    | nil => contradiction
    | cons c rest =>
        rw [hcut] at hhead
        exact hhead

/-! ## Rounding a scaled quotient -/

theorem roundDiv_mul_right (tie : Tie) (num den : Nat) {k : Nat} (hk : 0 < k) :
    roundDiv tie (num * k) (den * k) = roundDiv tie num den := by
  have hmod : 2 * (num * k % (den * k)) = 2 * (num % den) * k := by
    rw [Nat.mul_mod_mul_right, Nat.mul_assoc]
  have hdiv := Nat.mul_div_mul_right num den hk
  unfold roundDiv
  simp only [hmod, hdiv, Nat.mul_lt_mul_right hk]

namespace Magnitude

/-- The count of units nearest to a quotient, up to the 53 leading bits. -/
def nearestUnits (num den : Nat) : Nat :=
  let quotient := 2 ^ unitExponent * num / den
  roundDiv .toEven (2 ^ unitExponent * num) (den * 2 ^ shift quotient) * 2 ^ shift quotient

theorem ofRatio?_eq_some_iff {num den : Nat} {magnitude : Magnitude} :
    ofRatio? num den = some magnitude ↔ magnitude.units = nearestUnits num den := by
  unfold ofRatio?
  dsimp only
  split
  next fits =>
    rw [Option.some.injEq, eq_comm, Magnitude.mk.injEq]
    rfl
  next hlarge =>
    constructor
    · exact fun h => nomatch h
    · intro h
      have fits : nearestUnits num den < bound := h ▸ magnitude.fits
      exact absurd fits hlarge

theorem ofRatio?_congr {a b c d : Nat} (hb : 0 < b) (hd : 0 < d) (h : a * d = c * b) :
    ofRatio? a b = ofRatio? c d := by
  have hscaled : ∀ (num den : Nat) {k : Nat}, 0 < k →
      nearestUnits (num * k) (den * k) = nearestUnits num den := by
    intro num den k hk
    unfold nearestUnits
    dsimp only
    rw [← Nat.mul_assoc, Nat.mul_div_mul_right _ _ hk, Nat.mul_right_comm den k,
      roundDiv_mul_right _ _ _ hk]
  ext magnitude
  rw [ofRatio?_eq_some_iff, ofRatio?_eq_some_iff, ← hscaled a b hd, ← hscaled c d hb, h,
    Nat.mul_comm b d]

/-- A magnitude is its own count of units, so nothing is rounded. -/
theorem ofRatio?_units (magnitude : Magnitude) :
    ofRatio? magnitude.units (2 ^ unitExponent) = some magnitude := by
  have hpow : 0 < 2 ^ unitExponent := Nat.two_pow_pos unitExponent
  have haligned : 2 ^ shift magnitude.units ∣ magnitude.units := magnitude.aligned
  rw [ofRatio?_eq_some_iff, nearestUnits, Nat.mul_div_cancel_left _ hpow]
  generalize shift magnitude.units = places at haligned
  obtain ⟨significand, hunits⟩ := haligned
  have hden : 0 < 2 ^ unitExponent * 2 ^ places := Nat.mul_pos hpow (Nat.two_pow_pos places)
  have hnum : 2 ^ unitExponent * magnitude.units =
      significand * (2 ^ unitExponent * 2 ^ places) := by
    rw [hunits, ← Nat.mul_assoc, Nat.mul_comm]
  rw [hnum, roundDiv_mul _ _ hden, hunits, Nat.mul_comm]

/-! ## Decimals -/

/-- Zeros at the end of a coefficient count as its exponent. -/
theorem ofDecimal?_mul_pow (num : Nat) (exponent : Int) (zeros : Nat) :
    ofDecimal? (num * 10 ^ zeros) (exponent - zeros) = ofDecimal? num exponent := by
  have hpow : ∀ n : Nat, 0 < 10 ^ n := fun n => Nat.pow_pos (by decide)
  have hexponent : zeros + (exponent - zeros).toNat + (-exponent).toNat =
      exponent.toNat + (-(exponent - zeros)).toNat := by
    omega
  refine ofRatio?_congr (hpow _) (hpow _) ?_
  rw [Nat.mul_assoc num, Nat.mul_assoc num, Nat.mul_assoc num, ← Nat.pow_add, ← Nat.pow_add,
    ← Nat.pow_add, hexponent]

theorem ofDecimal?_exact (magnitude : Magnitude) :
    ofDecimal? (magnitude.units * 5 ^ unitExponent) (-unitExponent) = some magnitude := by
  have hpow : ∀ n : Nat, 0 < 10 ^ n := fun n => Nat.pow_pos (by decide)
  have hnum : (-(unitExponent : Int)).toNat = 0 := by omega
  have hden : (- -(unitExponent : Int)).toNat = unitExponent := by omega
  have hten : 10 ^ unitExponent = 5 ^ unitExponent * 2 ^ unitExponent :=
    Nat.mul_pow 5 2 unitExponent
  rw [← ofRatio?_units magnitude]
  refine ofRatio?_congr (hpow _) (Nat.two_pow_pos _) ?_
  rw [hnum, hden, hten, Nat.pow_zero, Nat.mul_one, Nat.mul_assoc]

theorem ofDecimal?_zero_eq_some_iff {exponent : Int} {magnitude : Magnitude} :
    ofDecimal? 0 exponent = some magnitude ↔ magnitude.units = 0 := by
  have hround : ∀ den, roundDiv .toEven 0 den = 0 := by
    intro den
    unfold roundDiv
    simp
  rw [ofDecimal?, ofRatio?_eq_some_iff, nearestUnits]
  simp only [Nat.zero_mul, Nat.mul_zero, hround]

/-! ## The search -/

theorem ofDecimal?_of_onGrid? {tie : Tie} {magnitude : Magnitude} {exponent : Int}
    {coefficient : Nat} (h : magnitude.onGrid? tie exponent = some coefficient) :
    ofDecimal? coefficient exponent = some magnitude := by
  unfold onGrid? at h
  dsimp only at h
  generalize magnitude.units * 10 ^ (-exponent).toNat = num,
    2 ^ unitExponent * 10 ^ exponent.toNat = den at h
  have hreads : ∀ n, magnitude.readsBack n exponent = true →
      ofDecimal? n exponent = some magnitude := fun n hn => eq_of_beq hn
  split at h
  next hbelow habove =>
    -- The nearer one is one of the two, and both have been read back.
    have hle := le_roundDiv tie num den
    have hge := roundDiv_le tie num den
    obtain hsame | hnext : roundDiv tie num den = num / den ∨
        roundDiv tie num den = num / den + 1 := by
      omega
    · rw [← Option.some.inj h, hsame]
      exact hreads _ hbelow
    · rw [← Option.some.inj h, hnext]
      exact hreads _ habove
  next hbelow _ => exact Option.some.inj h ▸ hreads _ hbelow
  next _ habove => exact Option.some.inj h ▸ hreads _ habove
  next => contradiction

theorem ofDecimal?_shortest (tie : Tie) (magnitude : Magnitude) :
    ofDecimal? (magnitude.shortest tie).1 (magnitude.shortest tie).2 = some magnitude := by
  have hgetD : ∀ (found? : Option (Nat × Int)) (n : Nat) (exponent : Int),
      (∀ found, found? = some found → ofDecimal? found.1 found.2 = some magnitude) →
      ofDecimal? n exponent = some magnitude →
      ofDecimal? (found?.getD (n, exponent)).1 (found?.getD (n, exponent)).2 =
        some magnitude := by
    intro found? n exponent hfound hn
    cases found? with
    | none => exact hn
    | some found => exact hfound found rfl
  refine hgetD _ _ _ ?_ magnitude.ofDecimal?_exact
  intro found hfound
  obtain ⟨n, -, hn⟩ := List.exists_of_findSome?_eq_some hfound
  obtain ⟨coefficient, hgrid, rfl⟩ := Option.map_eq_some_iff.1 hn
  exact ofDecimal?_of_onGrid? hgrid

theorem coefficient_shortest_ne_zero {tie : Tie} {magnitude : Magnitude}
    (hunits : magnitude.units ≠ 0) : (magnitude.shortest tie).1 ≠ 0 := by
  intro hzero
  have hread := ofDecimal?_shortest tie magnitude
  rw [hzero] at hread
  exact hunits (ofDecimal?_zero_eq_some_iff.1 hread)

theorem leading_digits {tie : Tie} {magnitude : Magnitude} (hunits : magnitude.units ≠ 0) :
    Digits.Leading (magnitude.digits tie).digits := by
  unfold digits
  exact Digits.leading_ofDecimal (coefficient_shortest_ne_zero hunits) _

end Magnitude

/-! ## Digits -/

namespace Digits

/-- The magnitude nearest to the value of the digits. -/
def nearest? (d : Digits) : Option Magnitude :=
  Magnitude.ofDecimal? (Nat.ofDigitChars 10 d.digits 0) (d.point - d.digits.length)

theorem exists_toDigits_eq (coefficient : Nat) (exponent : Int) :
    ∃ zeros, Nat.toDigits 10 coefficient =
      (ofDecimal coefficient exponent).digits ++ List.replicate zeros '0' := by
  have hdigits : (ofDecimal coefficient exponent).digits =
      (Nat.toDigits 10 coefficient).rdropWhile (· == '0') := rfl
  have hzero : ∀ c ∈ (Nat.toDigits 10 coefficient).rtakeWhile (· == '0'), c = '0' := by
    intro c hc
    have hbeq := List.mem_rtakeWhile_imp hc
    exact eq_of_beq hbeq
  refine ⟨((Nat.toDigits 10 coefficient).rtakeWhile (· == '0')).length, ?_⟩
  rw [hdigits, ← List.eq_replicate_of_mem hzero, List.rdropWhile_append_rtakeWhile]

/-- Zeros that are cut from the end are still counted by the point. -/
theorem exists_zeros (coefficient : Nat) (exponent : Int) :
    ∃ zeros : Nat,
      Nat.ofDigitChars 10 (ofDecimal coefficient exponent).digits 0 * 10 ^ zeros = coefficient ∧
      (ofDecimal coefficient exponent).point - (ofDecimal coefficient exponent).digits.length =
        exponent + zeros := by
  obtain ⟨zeros, hsplit⟩ := exists_toDigits_eq coefficient exponent
  refine ⟨zeros, ?_, ?_⟩
  · have hread := Nat.ofDigitChars_ten_toDigits (n := coefficient)
    rwa [hsplit, Nat.ofDigitChars_append, Nat.ofDigitChars_replicate_zero, Nat.mul_comm] at hread
  · have hpoint : (ofDecimal coefficient exponent).point =
        (Nat.toDigits 10 coefficient).length + exponent := rfl
    rw [hpoint, hsplit, List.length_append, List.length_replicate]
    omega

theorem nearest?_ofDecimal (coefficient : Nat) (exponent : Int) :
    (ofDecimal coefficient exponent).nearest? = Magnitude.ofDecimal? coefficient exponent := by
  obtain ⟨zeros, hvalue, hexponent⟩ := exists_zeros coefficient exponent
  rw [nearest?, hexponent, ← Magnitude.ofDecimal?_mul_pow _ _ zeros, Int.add_sub_cancel, hvalue]

end Digits

theorem Magnitude.nearest?_digits (tie : Tie) (magnitude : Magnitude) :
    (magnitude.digits tie).nearest? = some magnitude := by
  rw [digits, Digits.nearest?_ofDecimal, ofDecimal?_shortest]

end FilterLang
