import FilterLang.Text.Characters

/-!
# Written digits read back

Decimal fields and hexadecimal codes are written by the same padding of the
digits of a natural number.  Padding with zeros changes neither reading, and a
decimal field has exactly its width as long as the number fits.
-/

namespace FilterLang
namespace Text

-- Powers of natural numbers are `Nat.pow`, whatever else is in scope.
attribute [local instance (high)] instPowNat

theorem hexValue?_digitChar {d : Nat} (hd : d < 16) :
    hexValue? d.digitChar = some d := by
  have hall : ∀ d < 16, hexValue? (Nat.digitChar d) = some d := by decide
  exact hall d hd

theorem hexNumber?_append_singleton (digits : List Char) (c : Char) :
    hexNumber? (digits ++ [c]) =
      (hexNumber? digits).bind fun n => (hexValue? c).map (16 * n + ·) := by
  unfold hexNumber?
  rw [List.foldl_append]
  cases List.foldl _ (some 0) digits with
  | none => rfl
  | some n =>
      cases hvalue : hexValue? c with
      | none => simp [hvalue]
      | some d => simp [hvalue]

theorem hexNumber?_toDigits (n : Nat) :
    hexNumber? (Nat.toDigits 16 n) = some n := by
  induction n using Nat.strongRecOn with
  | ind n ih =>
      rw [Nat.toDigits_eq_if (by decide)]
      split
      next hlt =>
        have hvalue := hexNumber?_append_singleton [] n.digitChar
        rw [hexValue?_digitChar hlt] at hvalue
        simpa [hexNumber?] using hvalue
      next hge =>
        rw [hexNumber?_append_singleton, ih (n / 16) (by omega),
          hexValue?_digitChar (Nat.mod_lt _ (by decide))]
        simp only [Option.bind_some, Option.map_some, Option.some.injEq]
        omega

theorem hexNumber?_padLeft (width : Nat) (digits : List Char) :
    hexNumber? (padLeft width digits) = hexNumber? digits := by
  have hzeros : ∀ k : Nat, hexNumber? (List.replicate k '0') = some 0 := by
    intro k
    induction k with
    | zero => rfl
    | succ k ih =>
        rw [List.replicate_succ', hexNumber?_append_singleton, ih]
        rfl
  unfold padLeft hexNumber?
  rw [List.foldl_append]
  congr 1
  exact hzeros _

/-- Every digit of a number in a base up to sixteen is hexadecimal. -/
theorem isSome_hexValue?_of_mem_toDigits {n : Nat} {c : Char}
    (hc : c ∈ Nat.toDigits 16 n) : (hexValue? c).isSome := by
  induction n using Nat.strongRecOn with
  | ind n ih =>
      rw [Nat.toDigits_eq_if (by decide)] at hc
      split at hc
      next hlt =>
        rw [List.mem_singleton] at hc
        rw [hc, hexValue?_digitChar hlt]
        rfl
      next hge =>
        rw [List.mem_append, List.mem_singleton] at hc
        rcases hc with hc | hc
        · exact ih (n / 16) (by omega) hc
        · rw [hc, hexValue?_digitChar (Nat.mod_lt _ (by decide))]
          rfl

theorem mem_padLeft {width : Nat} {digits : List Char} {c : Char}
    (hc : c ∈ padLeft width digits) : c = '0' ∨ c ∈ digits := by
  unfold padLeft at hc
  rw [List.mem_append, List.mem_replicate] at hc
  rcases hc with hc | hc
  · exact Or.inl hc.2
  · exact Or.inr hc

theorem length_padLeft (width : Nat) (digits : List Char) :
    (padLeft width digits).length = max width digits.length := by
  unfold padLeft
  rw [List.length_append, List.length_replicate]
  omega

theorem isDigit_of_mem_decimal {width n : Nat} {c : Char}
    (hc : c ∈ decimal width n) : c.isDigit := by
  rcases mem_padLeft hc with hc | hc
  · rw [hc]
    rfl
  · exact Nat.isDigit_of_mem_toDigits (by decide) (by decide) hc

theorem decimal_ne_nil (width n : Nat) : decimal width n ≠ [] := by
  unfold decimal padLeft
  simp [Nat.toDigits_ne_nil]

theorem length_decimal {width n : Nat} (hwidth : 0 < width) (hn : n < 10 ^ width) :
    (decimal width n).length = width := by
  have hdigits : (Nat.toDigits 10 n).length ≤ width :=
    (Nat.length_toDigits_le_iff (by decide) hwidth).2 hn
  unfold decimal
  rw [length_padLeft]
  omega

/-- A decimal field reads as the number it was written for. -/
theorem ofDigitChars_decimal (width n : Nat) :
    Nat.ofDigitChars 10 (decimal width n) 0 = n := by
  unfold decimal padLeft
  rw [Nat.ofDigitChars_append, Nat.ofDigitChars_replicate_zero, Nat.mul_zero]
  exact Nat.ofDigitChars_ten_toDigits

theorem ofDigitChars_lt {digits : List Char} (hdigits : ∀ c ∈ digits, c.isDigit = true) :
    Nat.ofDigitChars 10 digits 0 < 10 ^ digits.length := by
  induction digits with
  | nil => simp
  | cons c digits ih =>
      rw [List.forall_mem_cons] at hdigits
      have hrest := ih hdigits.2
      have hnine : '9'.toNat = 57 := rfl
      have hzero : '0'.toNat = 48 := rfl
      have hc := (Char.isDigit_iff_toNat.1 hdigits.1).2
      have hdigit : c.toNat - '0'.toNat ≤ 9 := by omega
      have hle := Nat.mul_le_mul_left (10 ^ digits.length) hdigit
      rw [Nat.ofDigitChars_cons, Nat.ofDigitChars_eq_ofDigitChars_zero, Nat.mul_zero, Nat.zero_add,
        List.length_cons, Nat.pow_succ]
      omega

/-- Digits with zeros behind them, up to a width. -/
theorem ofDigitChars_mul_pow_lt {width : Nat} {digits : List Char}
    (hdigits : ∀ c ∈ digits, c.isDigit = true) (hlength : digits.length ≤ width) :
    Nat.ofDigitChars 10 digits 0 * 10 ^ (width - digits.length) < 10 ^ width := by
  have hpow : 0 < 10 ^ (width - digits.length) := Nat.pow_pos (by decide)
  have hlt := Nat.mul_lt_mul_of_pos_right (ofDigitChars_lt hdigits) hpow
  rwa [← Nat.pow_add, Nat.add_sub_of_le hlength] at hlt

/-- The number that the leading digits denote. -/
theorem ofDigitChars_append_div (front : List Char) {back : List Char}
    (hback : ∀ c ∈ back, c.isDigit = true) :
    Nat.ofDigitChars 10 (front ++ back) 0 / 10 ^ back.length = Nat.ofDigitChars 10 front 0 := by
  rw [Nat.ofDigitChars_append, Nat.ofDigitChars_eq_ofDigitChars_zero,
    Nat.mul_add_div (Nat.pow_pos (by decide : 0 < 10)), Nat.div_eq_of_lt (ofDigitChars_lt hback),
    Nat.add_zero]

/-- Digits are told by their count and the number that they denote. -/
theorem eq_of_ofDigitChars_eq {digits digits' : List Char}
    (hdigits : ∀ c ∈ digits, c.isDigit = true) (hdigits' : ∀ c ∈ digits', c.isDigit = true)
    (hlength : digits.length = digits'.length)
    (h : Nat.ofDigitChars 10 digits 0 = Nat.ofDigitChars 10 digits' 0) : digits = digits' := by
  have hvalue : ∀ (c : Char) (rest : List Char), Nat.ofDigitChars 10 (c :: rest) 0 =
      10 ^ rest.length * (c.toNat - '0'.toNat) + Nat.ofDigitChars 10 rest 0 := by
    intro c rest
    rw [Nat.ofDigitChars_cons, Nat.ofDigitChars_eq_ofDigitChars_zero, Nat.mul_zero, Nat.zero_add]
  induction digits generalizing digits' with
  | nil => exact (List.length_eq_zero_iff.1 hlength.symm).symm
  | cons c rest ih =>
      cases digits' with
      | nil => exact absurd hlength (Nat.succ_ne_zero _)
      | cons d rest' =>
          rw [List.forall_mem_cons] at hdigits hdigits'
          have hrest : rest.length = rest'.length := Nat.succ.inj hlength
          have hlt := ofDigitChars_lt hdigits.2
          have hlt' := ofDigitChars_lt hdigits'.2
          rw [hvalue, hvalue, hrest] at h
          rw [hrest] at hlt
          have hquotient := congrArg (· / 10 ^ rest'.length) h
          simp only [Nat.mul_add_div (Nat.pow_pos (by decide : 0 < 10)), Nat.div_eq_of_lt hlt,
            Nat.div_eq_of_lt hlt', Nat.add_zero] at hquotient
          have hzero : '0'.toNat = 48 := rfl
          have hc := (Char.isDigit_iff_toNat.1 hdigits.1).1
          have hd := (Char.isDigit_iff_toNat.1 hdigits'.1).1
          have hsame : c = d := Char.toNat_inj.1 (by omega)
          rw [hquotient, Nat.add_left_cancel_iff] at h
          rw [hsame, ih hdigits.2 hdigits'.2 hrest h]

/-- Digits are the decimal field of their own width that is written for their number. -/
theorem decimal_ofDigitChars {digits : List Char} (hne : digits ≠ [])
    (hdigits : ∀ c ∈ digits, c.isDigit = true) :
    decimal digits.length (Nat.ofDigitChars 10 digits 0) = digits := by
  have hlength := length_decimal (List.length_pos_iff.2 hne) (ofDigitChars_lt hdigits)
  exact eq_of_ofDigitChars_eq (fun c => isDigit_of_mem_decimal) hdigits hlength
    (ofDigitChars_decimal _ _)

theorem takeWhile_isDigit {digits rest : List Char} (hdigits : ∀ c ∈ digits, c.isDigit = true)
    (hrest : ∀ c ∈ rest.head?, c.isDigit = false) :
    (digits ++ rest).takeWhile Char.isDigit = digits ∧
      (digits ++ rest).dropWhile Char.isDigit = rest := by
  rw [List.takeWhile_append_of_pos hdigits, List.dropWhile_append_of_pos hdigits]
  cases rest with
  | nil => simp
  | cons c rest =>
      have hc := hrest c rfl
      simp [hc]

end Text
end FilterLang
