import FilterLang.Json.Reader
import FilterLang.Proofs.JsonNesting

/-!
# What is read as a JSON number

A number is read from characters that are no brackets and no quotes, as are space and
the literals.  It is finite: the digits that are gathered stay below a bound that a
binary number can show, and what is out of range in other ways is refused.
-/

namespace FilterLang
namespace Json

-- Powers of natural numbers are `Nat.pow`, whatever else is in scope.
attribute [local instance (high)] instPowNat

-- What holds of each character of a list is decided along the list.
attribute [local instance (high)] List.decidableBAll

variable {μ : Type} {text middle rest : List Char}

/-! ## Plain texts -/

/-- The text begins with plain characters, and goes on with `rest`. -/
def Skips (text rest : List Char) : Prop :=
  ∃ front, front ++ rest = text ∧ ∀ c ∈ front, Brackets.IsPlain c

namespace Skips

theorem refl (text : List Char) : Skips text text :=
  ⟨[], rfl, List.forall_mem_nil _⟩

theorem cons {c : Char} (hc : Brackets.IsPlain c) (h : Skips text rest) :
    Skips (c :: text) rest := by
  obtain ⟨front, rfl, hfront⟩ := h
  exact ⟨c :: front, rfl, List.forall_mem_cons.2 ⟨hc, hfront⟩⟩

theorem trans (h : Skips text middle) (h' : Skips middle rest) : Skips text rest := by
  obtain ⟨front, rfl, hfront⟩ := h
  obtain ⟨more, rfl, hmore⟩ := h'
  exact ⟨front ++ more, List.append_assoc .., List.forall_mem_append.2 ⟨hfront, hmore⟩⟩

theorem dropWhile {p : Char → Bool} (hp : ∀ c, p c = true → Brackets.IsPlain c)
    (text : List Char) : Skips text (text.dropWhile p) :=
  ⟨text.takeWhile p, List.takeWhile_append_dropWhile, fun c hc =>
    hp c (List.all_eq_true.1 List.all_takeWhile c hc)⟩

end Skips

theorem isPlain_of_all {p : Char → Bool} (hp : ∀ c ∈ ['"', '[', '{', ']', '}'], p c = false)
    {c : Char} (hc : p c = true) : Brackets.IsPlain c := by
  intro hmem
  rw [hp c hmem] at hc
  contradiction

theorem isPlain_of_isDigit {c : Char} (hc : c.isDigit = true) : Brackets.IsPlain c :=
  isPlain_of_all (by decide) hc

theorem skips_digits (text : List Char) : Skips text (text.dropWhile Char.isDigit) :=
  Skips.dropWhile (fun _ => isPlain_of_isDigit) text

theorem skips_of_skipSpace (h : skipSpace text = rest) : Skips text rest :=
  h ▸ Skips.dropWhile (fun _ => isPlain_of_all (by decide)) text

theorem skips_readLiteral {expected : List Char} (hplain : ∀ c ∈ expected, Brackets.IsPlain c)
    (h : readLiteral (μ := μ) expected text = .ok rest) : Skips text rest := by
  induction expected generalizing text with
  | nil =>
      cases h
      exact Skips.refl _
  | cons e expected ih =>
      rw [List.forall_mem_cons] at hplain
      cases text with
      | nil => cases h
      | cons c text =>
          unfold readLiteral at h
          split at h
          next hc => exact (ih hplain.2 h).cons (hc ▸ hplain.1)
          next => cases h

/-! ## Numbers -/

def Number.IsFinite (n : Number) : Prop :=
  ∃ negative magnitude, n.toBinary64 = .finite negative magnitude

theorem isSome_ofRatio?_of_le {significand : Nat} (h : significand ≤ maxSignificand) :
    (Magnitude.ofRatio? significand 1).isSome := by
  have hscaled : 2 ^ Magnitude.unitExponent * significand < 2 ^ (Magnitude.unitExponent + 64) := by
    rw [Nat.pow_add]
    refine Nat.mul_lt_mul_of_pos_left ?_ (Nat.two_pow_pos _)
    unfold maxSignificand at h
    omega
  have hshift : Magnitude.shift (2 ^ Magnitude.unitExponent * significand / 1) <
      Magnitude.topExponent - 53 := by
    rw [Magnitude.shift, Nat.div_one, Magnitude.topExponent_eq]
    by_cases hzero : 2 ^ Magnitude.unitExponent * significand = 0
    · rw [hzero, Nat.log2_zero]
      decide
    · rw [← Nat.log2_lt hzero, Magnitude.unitExponent_eq] at hscaled
      rw [Magnitude.unitExponent_eq]
      omega
  have hsignificand :=
    Magnitude.roundDiv_significand_le (2 ^ Magnitude.unitExponent * significand) 1
  unfold Magnitude.ofRatio?
  dsimp only
  rw [dif_pos]
  · rfl
  · rw [Magnitude.bound_eq_mul]
    have hpositive : 0 < 2 * Magnitude.leadingBit := by decide
    exact Nat.mul_lt_mul_of_le_of_lt hsignificand (Nat.pow_lt_pow_right (by decide) hshift)
      hpositive

theorem Number.isFinite_ofInteger {significand : Nat} (h : significand ≤ maxSignificand)
    (negative : Bool) : (ofInteger negative significand).IsFinite := by
  obtain ⟨magnitude, hmagnitude⟩ := Option.isSome_iff_exists.1 (isSome_ofRatio?_of_le h)
  unfold ofInteger
  split
  next =>
    refine ⟨decide ((significand : Int) < 0), magnitude, ?_⟩
    rw [toBinary64, Int.natAbs_natCast, hmagnitude]
    rfl
  split
  next =>
    refine ⟨true, magnitude, ?_⟩
    rw [toBinary64, hmagnitude]
    rfl
  next =>
    refine ⟨decide (-(significand : Int) < 0), magnitude, ?_⟩
    rw [toBinary64, Int.natAbs_neg, Int.natAbs_natCast, hmagnitude]
    rfl

/-- A finite number was read from plain characters. -/
structure ReadsNumber (text : List Char) (n : Number) (rest : List Char) : Prop where
  skips : Skips text rest
  finite : n.IsFinite

theorem ReadsNumber.behind {n : Number} (h : ReadsNumber middle n rest)
    (hskips : Skips text middle) : ReadsNumber text n rest :=
  ⟨hskips.trans h.skips, h.finite⟩

theorem skips_gatherDigits (limit value : Nat) (text : List Char) :
    Skips text (gatherDigits limit value text).2 := by
  induction text generalizing value with
  | nil => exact Skips.refl []
  | cons c text ih =>
      unfold gatherDigits
      dsimp only
      split
      next hdigit => exact (ih _).cons (isPlain_of_isDigit hdigit.1)
      next => exact Skips.refl _

theorem gatherDigits_le {limit value : Nat} (hvalue : value ≤ limit) (text : List Char) :
    (gatherDigits limit value text).1 ≤ limit := by
  induction text generalizing value with
  | nil => exact hvalue
  | cons c text ih =>
      unfold gatherDigits
      dsimp only
      split
      next hdigit => exact ih hdigit.2
      next => exact hvalue

section

variable {negative down : Bool} {significand dropped : Nat} {start exponent : Int} {n : Number}

theorem readsNumber_finish
    (h : finishNumber (μ := μ) negative significand exponent text = .ok (n, rest)) :
    ReadsNumber text n rest := by
  obtain rfl := finishNumber_rest h
  unfold finishNumber at h
  split at h
  next magnitude _ =>
    cases h
    exact ⟨Skips.refl _, negative, magnitude, rfl⟩
  next => cases h

theorem readsNumber_exponentDigits
    (h : readExponentDigits (μ := μ) negative down significand start text = .ok (n, rest)) :
    ReadsNumber text n rest := by
  unfold readExponentDigits at h
  split at h
  next => cases h
  next c tail =>
    split at h
    next => cases h
    have hgather := skips_gatherDigits maxExponent 0 (c :: tail)
    dsimp only at h
    split at h
    next =>
      split at h
      next => cases h
      next =>
        cases h
        exact ⟨hgather.trans (skips_digits _), negative, _, rfl⟩
    next => exact (readsNumber_finish h).behind hgather

theorem readsNumber_exponent
    (h : readExponent (μ := μ) negative significand start text = .ok (n, rest)) :
    ReadsNumber text n rest := by
  unfold readExponent at h
  split at h
  next => exact (readsNumber_exponentDigits h).behind ((Skips.refl _).cons (by decide))
  next => exact (readsNumber_exponentDigits h).behind ((Skips.refl _).cons (by decide))
  next => exact readsNumber_exponentDigits h

theorem readsNumber_float
    (h : finishFloat (μ := μ) negative significand exponent text = .ok (n, rest)) :
    ReadsNumber text n rest := by
  unfold finishFloat at h
  split at h
  next => exact readsNumber_finish h
  next c tail =>
    split at h
    next hc =>
      have hplain : Brackets.IsPlain c := by
        rcases hc with rfl | rfl
        · decide
        · decide
      exact (readsNumber_exponent h).behind ((Skips.refl _).cons hplain)
    next => exact readsNumber_finish h

theorem readsNumber_fraction
    (h : readFraction (μ := μ) negative significand exponent text = .ok (n, rest)) :
    ReadsNumber text n rest := by
  have hgather := skips_gatherDigits maxSignificand significand text
  unfold readFraction at h
  dsimp only at h
  split at h
  next => exact (readsNumber_float h).behind (hgather.trans (skips_digits _))
  split at h
  next =>
    split at h
    next => cases h
    next => cases h
  next => exact (readsNumber_float h).behind hgather

theorem readsNumber_whole (hsignificand : significand ≤ maxSignificand)
    (h : finishWhole (μ := μ) negative significand dropped text = .ok (n, rest)) :
    ReadsNumber text n rest := by
  unfold finishWhole at h
  split at h
  next => exact (readsNumber_fraction h).behind ((Skips.refl _).cons (by decide))
  next =>
    split at h
    next =>
      cases h
      exact ⟨Skips.refl _, Number.isFinite_ofInteger hsignificand negative⟩
    next => exact readsNumber_float h

theorem readsNumber_readNumber (h : readNumber (μ := μ) negative text = .ok (n, rest)) :
    ReadsNumber text n rest := by
  unfold readNumber at h
  split at h
  next => cases h
  next c tail =>
    split at h
    next hc =>
      split at h
      next => cases h
      next =>
        have hplain : Brackets.IsPlain c := by
          rw [hc]
          decide
        exact (readsNumber_whole (Nat.zero_le _) h).behind ((Skips.refl _).cons hplain)
    split at h
    next =>
      have hgather := skips_gatherDigits maxSignificand 0 (c :: tail)
      have hle := gatherDigits_le (Nat.zero_le maxSignificand) (c :: tail)
      dsimp only at h
      rw [Text.drop_length_takeWhile] at h
      exact (readsNumber_whole hle h).behind (hgather.trans (skips_digits _))
    next => cases h

end

end Json
end FilterLang
