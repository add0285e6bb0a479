import FilterLang.Json.Reader
import FilterLang.Json.Writer
import FilterLang.Proofs.ShortestNumbers

/-!
# JSON numbers are read to their end

A written number is a whole part without superfluous zeros, a fraction or none,
and an exponent or none.  The reader either fails on it or takes all of it, and
what stands behind plays no part, as long as it cannot prolong a number.

That a written number has these parts rests on its shortest digits: they read back
as a number other than zero, so they do not begin with a zero.
-/

namespace FilterLang

-- Powers of natural numbers are `Nat.pow`, whatever else is in scope.
attribute [local instance (high)] instPowNat

/-! ## The grammar of written numbers -/

namespace Json

def IsDigits (digits : List Char) : Prop :=
  digits ≠ [] ∧ ∀ c ∈ digits, c.isDigit = true

def IsWhole (whole : List Char) : Prop :=
  whole = ['0'] ∨ Digits.Leading whole

def IsFraction (fraction : List Char) : Prop :=
  fraction = [] ∨ ∃ digits, fraction = '.' :: digits ∧ IsDigits digits

def IsExponent (exponent : List Char) : Prop :=
  exponent = [] ∨ ∃ mark sign digits, exponent = mark :: sign ++ digits ∧
    (mark = 'e' ∨ mark = 'E') ∧ sign ∈ [[], ['+'], ['-']] ∧ IsDigits digits

/-- Texts of numbers without a sign. -/
def IsNumeral (text : List Char) : Prop :=
  ∃ whole fraction exponent, text = whole ++ fraction ++ exponent ∧
    IsWhole whole ∧ IsFraction fraction ∧ IsExponent exponent

theorem isDigits_toDigits (n : Nat) : IsDigits (Nat.toDigits 10 n) := by
  constructor
  · exact Nat.toDigits_ne_nil
  · intro c hc
    exact Nat.isDigit_of_mem_toDigits (by decide) (by decide) hc

theorem isDigit_zeros (n : Nat) : ∀ c ∈ List.replicate n '0', c.isDigit = true := by
  intro c hc
  rw [(List.mem_replicate.1 hc).2]
  rfl

theorem isDigits_zeros_append {digits : List Char} (hdigits : IsDigits digits) (zeros : Nat) :
    IsDigits (List.replicate zeros '0' ++ digits) := by
  refine ⟨by simp [hdigits.1], ?_⟩
  rw [List.forall_mem_append]
  exact ⟨isDigit_zeros _, hdigits.2⟩

theorem isDigits_drop {digits : List Char} (hdigits : ∀ c ∈ digits, c.isDigit = true)
    {count : Nat} (hcount : count < digits.length) : IsDigits (digits.drop count) := by
  constructor
  · simp only [ne_eq, List.drop_eq_nil_iff]
    omega
  · intro c hc
    exact hdigits c (List.mem_of_mem_drop hc)

theorem isNumeral_positionalText {d : Digits} (hd : Digits.Leading d.digits) :
    IsNumeral (d.positionalText true) := by
  have hdigits : IsDigits d.digits := ⟨hd.ne_nil, hd.isDigit⟩
  unfold Digits.positionalText
  split
  next =>
    refine ⟨['0'], '.' :: (List.replicate (-d.point).toNat '0' ++ d.digits), [], ?_,
      Or.inl rfl, Or.inr ⟨_, rfl, isDigits_zeros_append hdigits _⟩, Or.inl rfl⟩
    simp
  split
  next =>
    refine ⟨d.digits ++ List.replicate (d.point.toNat - d.digits.length) '0', ['.', '0'], [], ?_,
      Or.inr (hd.append (isDigit_zeros _)), Or.inr ⟨['0'], rfl, by simp, by simp⟩, Or.inl rfl⟩
    simp
  next hpoint hlength =>
    refine ⟨d.digits.take d.point.toNat, '.' :: d.digits.drop d.point.toNat, [], ?_,
      Or.inr (hd.take (by omega)), Or.inr ⟨_, rfl, isDigits_drop hd.isDigit (by omega)⟩,
      Or.inl rfl⟩
    simp

theorem isNumeral_exponentText {d : Digits} (hd : Digits.Leading d.digits) :
    IsNumeral (d.exponentText true) := by
  have hsign : (if d.point - 1 < 0 then ['-'] else ['+']) ∈ [[], ['+'], ['-']] := by
    split <;> simp
  have hexponent : IsExponent ('e' :: (if d.point - 1 < 0 then ['-'] else ['+']) ++
      Nat.toDigits 10 (d.point - 1).natAbs) :=
    Or.inr ⟨_, _, _, rfl, Or.inl rfl, hsign, isDigits_toDigits _⟩
  have hhead := hd.head
  have hdigit := hd.isDigit
  unfold Digits.exponentText
  cases hdigits : d.digits with
  | nil => exact absurd hdigits hd.ne_nil
  | cons c digits =>
      rw [hdigits] at hhead hdigit
      rw [List.forall_mem_cons] at hdigit
      have hwhole : IsWhole [c] := Or.inr ⟨by simp, by simpa using hdigit.1, hhead⟩
      cases digits with
      | nil =>
          refine ⟨[c], [], _, ?_, hwhole, Or.inl rfl, hexponent⟩
          simp
      | cons e digits =>
          refine ⟨[c], '.' :: e :: digits, _, ?_, hwhole,
            Or.inr ⟨_, rfl, by simp, hdigit.2⟩, hexponent⟩
          simp

/-- The texts of finite numbers follow the grammar. -/
theorem isNumeral_text (magnitude : Magnitude) : IsNumeral (magnitude.text numberStyle) := by
  unfold Magnitude.text
  split
  next =>
    exact ⟨['0'], ['.', '0'], [], rfl, Or.inl rfl, Or.inr ⟨['0'], rfl, by simp, by simp⟩,
      Or.inl rfl⟩
  next hunits =>
    have hleading : Digits.Leading (magnitude.digits numberStyle.tie).digits :=
      Magnitude.leading_digits hunits
    dsimp only
    split
    · exact isNumeral_positionalText hleading
    · exact isNumeral_exponentText hleading

/-! ## Reading -/

/-- Texts that cannot prolong a number. -/
def EndsNumber (rest : List Char) : Prop :=
  ∀ c ∈ rest.head?, c.isDigit = false ∧ c ≠ '.' ∧ c ≠ 'e' ∧ c ≠ 'E'

variable {μ : Type}

/-- Either fails on the text, or takes all of it and gives the same whatever
stands behind. -/
def Settles {α : Type} (read : List Char → Except (Fault μ) (α × List Char))
    (text : List Char) : Prop :=
  ∃ a? : Option α, ∀ rest, EndsNumber rest →
    (read (text ++ rest)).toOption = a?.map fun a => (a, rest)

theorem Settles.of_eq {α : Type} {read other : List Char → Except (Fault μ) (α × List Char)}
    {text part : List Char} (h : Settles other part)
    (heq : ∀ rest, EndsNumber rest → read (text ++ rest) = other (part ++ rest)) :
    Settles read text := by
  obtain ⟨a?, ha⟩ := h
  refine ⟨a?, ?_⟩
  intro rest hrest
  rw [heq rest hrest]
  exact ha rest hrest

theorem startsWithDigit_eq_false {rest : List Char} (hrest : ∀ c ∈ rest.head?, c.isDigit = false) :
    startsWithDigit rest = false := by
  cases rest with
  | nil => rfl
  | cons c rest => exact hrest c rfl

theorem gatherDigits_stop (limit value : Nat) {rest : List Char}
    (hrest : ∀ c ∈ rest.head?, c.isDigit = false) :
    gatherDigits limit value rest = (value, rest) := by
  cases rest with
  | nil => rfl
  | cons c rest =>
      have hc := hrest c rfl
      rw [gatherDigits]
      simp [hc]

theorem gatherDigits_append (limit value : Nat) {digits : List Char}
    (hdigits : ∀ c ∈ digits, c.isDigit = true) :
    ∃ gathered left, (∀ c ∈ left, c.isDigit = true) ∧ left.length ≤ digits.length ∧
      ∀ rest, (∀ c ∈ rest.head?, c.isDigit = false) →
        gatherDigits limit value (digits ++ rest) = (gathered, left ++ rest) := by
  induction digits generalizing value with
  | nil =>
      refine ⟨value, [], by simp, Nat.le_refl _, ?_⟩
      intro rest hrest
      exact gatherDigits_stop limit value hrest
  | cons c digits ih =>
      rw [List.forall_mem_cons] at hdigits
      by_cases hlimit : value * 10 + (c.toNat - '0'.toNat) ≤ limit
      · obtain ⟨gathered, left, hleft, hlength, hgather⟩ :=
          ih (value * 10 + (c.toNat - '0'.toNat)) hdigits.2
        refine ⟨gathered, left, hleft, Nat.le_succ_of_le hlength, ?_⟩
        intro rest hrest
        rw [List.cons_append, gatherDigits, if_pos ⟨hdigits.1, hlimit⟩, hgather rest hrest]
      · refine ⟨value, c :: digits, ?_, Nat.le_refl _, ?_⟩
        · rw [List.forall_mem_cons]
          exact hdigits
        · intro rest _
          rw [List.cons_append, gatherDigits, if_neg (fun h => hlimit h.2)]

theorem settles_finishNumber (negative : Bool) (significand : Nat) (exponent : Int) :
    Settles (finishNumber (μ := μ) negative significand exponent) [] := by
  refine ⟨(Number.magnitudeOf? significand exponent).map fun magnitude =>
    .float (.finite negative magnitude), ?_⟩
  intro rest _
  rw [List.nil_append, finishNumber]
  cases Number.magnitudeOf? significand exponent <;> rfl

theorem settles_readExponentDigits (negative down : Bool) (significand : Nat) (start : Int)
    {digits : List Char} (hdigits : IsDigits digits) :
    Settles (readExponentDigits (μ := μ) negative down significand start) digits := by
  obtain ⟨hne, hall⟩ := hdigits
  obtain ⟨gathered, left, hleft, -, hgather⟩ := gatherDigits_append maxExponent 0 hall
  have hread : ∀ rest, EndsNumber rest →
      readExponentDigits (μ := μ) negative down significand start (digits ++ rest) =
        if startsWithDigit (left ++ rest) then
          if significand ≠ 0 ∧ !down then fail .numberOutOfRange (left ++ rest).tail 0
          else .ok (.float (.finite negative .zero), (left ++ rest).dropWhile Char.isDigit)
        else
          finishNumber negative significand
            (if down then start - gathered else start + gathered) (left ++ rest) := by
    intro rest hrest
    have hgathered := hgather rest fun c hc => (hrest c hc).1
    cases digits with
    | nil => contradiction
    | cons c digits =>
        have hc := hall c (List.mem_cons_self ..)
        rw [List.cons_append] at hgathered ⊢
        simp only [readExponentDigits, hc, hgathered]
        rfl
  cases left with
  | nil =>
      apply (settles_finishNumber negative significand
        (if down then start - gathered else start + gathered)).of_eq
      intro rest hrest
      have hnone := startsWithDigit_eq_false fun c hc => (hrest c hc).1
      rw [hread rest hrest, List.nil_append, if_neg (by simp [hnone])]
  | cons d left =>
      have hd : ∀ rest, startsWithDigit (d :: left ++ rest) = true := by
        intro rest
        exact hleft d (List.mem_cons_self ..)
      by_cases hlarge : significand ≠ 0 ∧ !down
      · refine ⟨none, ?_⟩
        intro rest hrest
        rw [hread rest hrest, if_pos (hd rest), if_pos hlarge]
        rfl
      · refine ⟨some (.float (.finite negative .zero)), ?_⟩
        intro rest hrest
        obtain ⟨-, hdrop⟩ := Text.takeWhile_isDigit hleft fun c hc => (hrest c hc).1
        rw [hread rest hrest, hdrop, if_pos (hd rest), if_neg hlarge]
        rfl

theorem settles_readExponent (negative : Bool) (significand : Nat) (start : Int)
    {sign digits : List Char} (hsign : sign ∈ [[], ['+'], ['-']]) (hdigits : IsDigits digits) :
    Settles (readExponent (μ := μ) negative significand start) (sign ++ digits) := by
  have hup := settles_readExponentDigits (μ := μ) negative false significand start hdigits
  have hdown := settles_readExponentDigits (μ := μ) negative true significand start hdigits
  simp only [List.mem_cons, List.not_mem_nil, or_false] at hsign
  rcases hsign with rfl | rfl | rfl
  · apply hup.of_eq
    intro rest hrest
    obtain ⟨hne, hall⟩ := hdigits
    cases digits with
    | nil => contradiction
    | cons c digits =>
        have hc := hall c (List.mem_cons_self ..)
        rw [List.nil_append, List.cons_append]
        unfold readExponent
        split
        next heq =>
          cases heq
          contradiction
        next heq =>
          cases heq
          contradiction
        next => rfl
  · apply hup.of_eq
    intro rest hrest
    rfl
  · apply hdown.of_eq
    intro rest hrest
    rfl

theorem settles_finishFloat (negative : Bool) (significand : Nat) (start : Int)
    {exponent : List Char} (hexponent : IsExponent exponent) :
    Settles (finishFloat (μ := μ) negative significand start) exponent := by
  rcases hexponent with rfl | ⟨mark, sign, digits, rfl, hmark, hsign, hdigits⟩
  · apply (settles_finishNumber negative significand start).of_eq
    intro rest hrest
    rw [List.nil_append]
    cases rest with
    | nil => rfl
    | cons c rest =>
        obtain ⟨-, -, he, hE⟩ := hrest c rfl
        rw [finishFloat, if_neg (by simp [he, hE])]
  · apply (settles_readExponent negative significand start hsign hdigits).of_eq
    intro rest hrest
    rw [List.cons_append, List.cons_append, finishFloat, if_pos hmark]

theorem not_isDigit_exponent {exponent rest : List Char} (hexponent : IsExponent exponent)
    (hrest : EndsNumber rest) : ∀ c ∈ (exponent ++ rest).head?, c.isDigit = false := by
  rcases hexponent with rfl | ⟨mark, sign, digits, rfl, hmark, -, -⟩
  · intro c hc
    exact (hrest c hc).1
  · rcases hmark with rfl | rfl
    · simp
    · simp

theorem settles_readFraction (negative : Bool) (significand : Nat) (start : Int)
    {digits exponent : List Char} (hdigits : IsDigits digits) (hexponent : IsExponent exponent) :
    Settles (readFraction (μ := μ) negative significand start) (digits ++ exponent) := by
  obtain ⟨hne, hall⟩ := hdigits
  obtain ⟨gathered, left, hleft, hlength, hgather⟩ :=
    gatherDigits_append maxSignificand significand hall
  apply (settles_finishFloat negative gathered
    (start - ((digits.length - left.length : Nat) : Int)) hexponent).of_eq
  intro rest hrest
  have hstop := not_isDigit_exponent hexponent hrest
  have hused : (digits ++ (exponent ++ rest)).length - (left ++ (exponent ++ rest)).length =
      digits.length - left.length := by
    simp only [List.length_append]
    omega
  rw [List.append_assoc, readFraction, hgather _ hstop]
  dsimp only
  rw [hused]
  cases left with
  | nil =>
      have hpositive : digits.length ≠ 0 := by simpa using hne
      have hnone := startsWithDigit_eq_false hstop
      rw [List.nil_append, if_neg (by simp [hnone]), List.length_nil, Nat.sub_zero,
        if_neg hpositive]
  | cons d left =>
      have hd : startsWithDigit (d :: left ++ (exponent ++ rest)) = true :=
        hleft d (List.mem_cons_self ..)
      obtain ⟨-, hdrop⟩ := Text.takeWhile_isDigit hleft hstop
      rw [if_pos hd, hdrop]

theorem finishWhole_eq {negative : Bool} {significand dropped : Nat} {text : List Char}
    (hpoint : ∀ c ∈ text.head?, c ≠ '.') :
    finishWhole (μ := μ) negative significand dropped text =
      if dropped = 0 ∧ text.head? ≠ some 'e' ∧ text.head? ≠ some 'E' then
        .ok (Number.ofInteger negative significand, text)
      else finishFloat negative significand dropped text := by
  unfold finishWhole
  split
  next => exact absurd rfl (hpoint '.' rfl)
  next => rfl

theorem settles_finishWhole (negative : Bool) (significand dropped : Nat)
    {fraction exponent : List Char} (hfraction : IsFraction fraction)
    (hexponent : IsExponent exponent) :
    Settles (finishWhole (μ := μ) negative significand dropped) (fraction ++ exponent) := by
  rcases hfraction with rfl | ⟨digits, rfl, hdigits⟩
  · have hfloat := settles_finishFloat (μ := μ) negative significand (dropped : Int) hexponent
    rcases hexponent with rfl | ⟨mark, sign, digits, rfl, hmark, -, -⟩
    · obtain ⟨n?, hn⟩ := hfloat
      refine ⟨if dropped = 0 then some (.ofInteger negative significand) else n?, ?_⟩
      intro rest hrest
      have hhead : rest.head? ≠ some 'e' ∧ rest.head? ≠ some 'E' := by
        constructor
        · intro he
          exact (hrest 'e' he).2.2.1 rfl
        · intro hE
          exact (hrest 'E' hE).2.2.2 rfl
      rw [List.nil_append, List.nil_append, finishWhole_eq fun c hc => (hrest c hc).2.1]
      by_cases hdropped : dropped = 0
      · rw [if_pos ⟨hdropped, hhead⟩, if_pos hdropped]
        rfl
      · rw [if_neg (fun h => hdropped h.1), if_neg hdropped]
        exact hn rest hrest
    · apply hfloat.of_eq
      intro rest hrest
      rcases hmark with rfl | rfl
      · rw [List.nil_append, finishWhole_eq (by simp), if_neg (by simp)]
      · rw [List.nil_append, finishWhole_eq (by simp), if_neg (by simp)]
  · exact settles_readFraction negative significand dropped hdigits hexponent

theorem not_isDigit_fraction {fraction exponent rest : List Char} (hfraction : IsFraction fraction)
    (hexponent : IsExponent exponent) (hrest : EndsNumber rest) :
    ∀ c ∈ (fraction ++ exponent ++ rest).head?, c.isDigit = false := by
  rcases hfraction with rfl | ⟨digits, rfl, -⟩
  · exact not_isDigit_exponent hexponent hrest
  · simp

/-- A text of a number is read to its end, or not at all. -/
theorem settles_readNumber (negative : Bool) {text : List Char} (htext : IsNumeral text) :
    Settles (readNumber (μ := μ) negative) text := by
  obtain ⟨whole, fraction, exponent, rfl, hwhole, hfraction, hexponent⟩ := htext
  rcases hwhole with rfl | hleading
  · apply (settles_finishWhole negative 0 0 hfraction hexponent).of_eq
    intro rest hrest
    have hnone := startsWithDigit_eq_false (not_isDigit_fraction hfraction hexponent hrest)
    simp only [List.append_assoc, List.cons_append, List.nil_append] at hnone ⊢
    rw [readNumber, if_pos rfl, if_neg (by simp [hnone])]
  · obtain ⟨gathered, left, hleft, -, hgather⟩ :=
      gatherDigits_append maxSignificand 0 hleading.isDigit
    apply (settles_finishWhole negative gathered left.length hfraction hexponent).of_eq
    intro rest hrest
    have hstop := not_isDigit_fraction hfraction hexponent hrest
    have hgathered := hgather _ hstop
    obtain ⟨htake, -⟩ := Text.takeWhile_isDigit hleft hstop
    rw [List.append_assoc, List.append_assoc, ← List.append_assoc fraction]
    cases whole with
    | nil => exact absurd rfl hleading.ne_nil
    | cons c whole =>
        have hc := hleading.isDigit c (List.mem_cons_self ..)
        have hzero : c ≠ '0' := by
          rintro rfl
          exact hleading.head rfl
        rw [List.cons_append] at hgathered ⊢
        rw [readNumber, if_neg hzero, if_pos hc, hgathered]
        dsimp only
        rw [htake, List.drop_left]

end Json
end FilterLang
