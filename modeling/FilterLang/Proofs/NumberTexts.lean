import FilterLang.Binary64.Text
import FilterLang.Proofs.Digits

/-!
# Characters and values of written numbers

Every written number is made of digits and a few marks, so it holds no quote
and no blank.  The text with fixed places is a whole part, a point and the
places; read as one run of digits it is the rounded count that was written.
-/

namespace FilterLang

-- Powers of natural numbers are `Nat.pow`, whatever else is in scope.
attribute [local instance (high)] instPowNat

-- What holds of each character of a list is decided along the list.
attribute [local instance (high)] List.decidableBAll

/-- Characters of numbers that are finite. -/
def IsNumeric (c : Char) : Prop :=
  c.isDigit = true ∨ c ∈ ['.', '-', '+', 'e']

theorem IsNumeric.of_isDigit {c : Char} (hc : c.isDigit = true) : IsNumeric c :=
  Or.inl hc

theorem IsNumeric.point : IsNumeric '.' :=
  Or.inr (by decide)

namespace Digits

theorem isDigit_of_mem_ofDecimal {coefficient : Nat} {exponent : Int} {c : Char}
    (hc : c ∈ (ofDecimal coefficient exponent).digits) : c.isDigit = true := by
  unfold ofDecimal at hc
  rw [List.mem_reverse] at hc
  have hdigits := List.mem_reverse.1 ((List.dropWhile_sublist _).subset hc)
  exact Nat.isDigit_of_mem_toDigits (by decide) (by decide) hdigits

theorem isNumeric_of_mem_positionalText {d : Digits} (hd : ∀ c ∈ d.digits, c.isDigit = true)
    (keepsFraction : Bool) {c : Char} (hc : c ∈ d.positionalText keepsFraction) :
    IsNumeric c := by
  have hzero : ∀ {n : Nat}, c ∈ List.replicate n '0' → IsNumeric c := by
    intro n hmem
    rw [(List.mem_replicate.1 hmem).2]
    exact IsNumeric.of_isDigit (by decide)
  unfold positionalText at hc
  split at hc
  · simp only [List.mem_append, List.mem_cons, List.not_mem_nil, or_false] at hc
    rcases hc with ((rfl | rfl) | hc) | hc
    · exact IsNumeric.of_isDigit (by decide)
    · exact IsNumeric.point
    · exact hzero hc
    · exact IsNumeric.of_isDigit (hd c hc)
  split at hc
  · simp only [List.mem_append] at hc
    rcases hc with (hc | hc) | hc
    · exact IsNumeric.of_isDigit (hd c hc)
    · exact hzero hc
    · split at hc
      · simp only [List.mem_cons, List.not_mem_nil, or_false] at hc
        rcases hc with rfl | rfl
        · exact IsNumeric.point
        · exact IsNumeric.of_isDigit (by decide)
      · contradiction
  · simp only [List.mem_append, List.mem_singleton] at hc
    rcases hc with (hc | rfl) | hc
    · exact IsNumeric.of_isDigit (hd c (List.mem_of_mem_take hc))
    · exact IsNumeric.point
    · exact IsNumeric.of_isDigit (hd c (List.mem_of_mem_drop hc))

theorem isNumeric_of_mem_exponentText {d : Digits} (hd : ∀ c ∈ d.digits, c.isDigit = true)
    (signsExponent : Bool) {c : Char} (hc : c ∈ d.exponentText signsExponent) :
    IsNumeric c := by
  unfold exponentText at hc
  simp only [List.mem_append, List.mem_singleton] at hc
  rcases hc with (((hc | hc) | rfl) | hc) | hc
  · exact IsNumeric.of_isDigit (hd c (List.mem_of_mem_take hc))
  · split at hc
    · contradiction
    · rcases List.mem_cons.1 hc with rfl | hc
      · exact IsNumeric.point
      · exact IsNumeric.of_isDigit (hd c (List.mem_of_mem_drop hc))
  · exact Or.inr (by decide)
  · split at hc
    · rw [List.mem_singleton.1 hc]
      exact Or.inr (by decide)
    · split at hc
      · rw [List.mem_singleton.1 hc]
        exact Or.inr (by decide)
      · contradiction
  · exact IsNumeric.of_isDigit (Nat.isDigit_of_mem_toDigits (by decide) (by decide) hc)

end Digits

namespace Magnitude

theorem isDigit_of_mem_digits {tie : Tie} {magnitude : Magnitude} {c : Char}
    (hc : c ∈ (magnitude.digits tie).digits) : c.isDigit = true := by
  unfold digits at hc
  exact Digits.isDigit_of_mem_ofDecimal hc

theorem isNumeric_of_mem_text {style : NumberStyle} {magnitude : Magnitude} {c : Char}
    (hc : c ∈ magnitude.text style) : IsNumeric c := by
  have hdigits : ∀ c ∈ (magnitude.digits style.tie).digits, c.isDigit = true := by
    intro c hc
    exact isDigit_of_mem_digits hc
  unfold text at hc
  split at hc
  · split at hc
    · simp only [List.mem_cons, List.not_mem_nil, or_false] at hc
      rcases hc with rfl | rfl | rfl
      · exact IsNumeric.of_isDigit (by decide)
      · exact IsNumeric.point
      · exact IsNumeric.of_isDigit (by decide)
    · rw [List.mem_singleton.1 hc]
      exact IsNumeric.of_isDigit (by decide)
  · dsimp only at hc
    split at hc
    · exact Digits.isNumeric_of_mem_positionalText hdigits _ hc
    · exact Digits.isNumeric_of_mem_exponentText hdigits _ hc

/-- The count of last places that a text with fixed places shows. -/
def roundedTo (places : Nat) (magnitude : Magnitude) : Nat :=
  roundDiv .toEven (magnitude.units * 10 ^ places) (2 ^ unitExponent)

theorem exists_fixedText {places : Nat} (hplaces : 0 < places) (magnitude : Magnitude) :
    ∃ whole fraction : List Char,
      magnitude.fixedText places = whole ++ '.' :: fraction ∧
      whole ≠ [] ∧ fraction.length = places ∧
      (∀ c ∈ whole, c.isDigit = true) ∧ (∀ c ∈ fraction, c.isDigit = true) ∧
      Nat.ofDigitChars 10 (whole ++ fraction) 0 = magnitude.roundedTo places := by
  have hpow : 0 < 10 ^ places := Nat.pow_pos (by decide)
  have hfraction : magnitude.roundedTo places % 10 ^ places < 10 ^ places :=
    Nat.mod_lt _ hpow
  have hlength := Text.length_decimal hplaces hfraction
  refine ⟨Nat.toDigits 10 (magnitude.roundedTo places / 10 ^ places),
    Text.decimal places (magnitude.roundedTo places % 10 ^ places), ?_,
    Nat.toDigits_ne_nil, hlength, ?_, ?_, ?_⟩
  · simp only [fixedText, roundedTo, List.append_assoc, List.cons_append, List.nil_append]
  · intro c hc
    exact Nat.isDigit_of_mem_toDigits (by decide) (by decide) hc
  · intro c hc
    exact Text.isDigit_of_mem_decimal hc
  · rw [Nat.ofDigitChars_append, Nat.ofDigitChars_ten_toDigits,
      Nat.ofDigitChars_eq_ofDigitChars_zero, Text.ofDigitChars_decimal, hlength]
    exact Nat.div_add_mod _ _

theorem exists_fixedText_eq_cons {places : Nat} (hplaces : 0 < places)
    (magnitude : Magnitude) :
    ∃ c text, magnitude.fixedText places = c :: text ∧ c.isDigit = true := by
  obtain ⟨whole, fraction, htext, hne, -, hwhole, -, -⟩ := exists_fixedText hplaces magnitude
  cases whole with
  | nil => contradiction
  | cons c whole => exact ⟨c, _, htext, hwhole c (List.mem_cons_self ..)⟩

end Magnitude

namespace Binary64

theorem mem_text {style : NumberStyle} {value : Binary64} {c : Char}
    (hc : c ∈ value.text style) : IsNumeric c ∨ c ∈ ['N', 'a', 'i', 'n', 'f'] := by
  have hsign : ∀ {negative : Bool}, c ∈ signText negative → IsNumeric c := by
    intro negative hmem
    cases negative with
    | false => contradiction
    | true =>
        rw [List.mem_singleton.1 hmem]
        exact Or.inr (by decide)
  cases value with
  | nan =>
      have hall : ∀ c ∈ "NaN".toList, c ∈ ['N', 'a', 'i', 'n', 'f'] := by decide
      exact Or.inr (hall c hc)
  | infinite negative =>
      have hall : ∀ c ∈ "inf".toList, c ∈ ['N', 'a', 'i', 'n', 'f'] := by decide
      rcases List.mem_append.1 hc with hc | hc
      · exact Or.inl (hsign hc)
      · exact Or.inr (hall c hc)
  | finite negative magnitude =>
      rcases List.mem_append.1 hc with hc | hc
      · exact Or.inl (hsign hc)
      · exact Or.inl (Magnitude.isNumeric_of_mem_text hc)

end Binary64
end FilterLang
