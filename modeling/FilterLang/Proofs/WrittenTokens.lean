import FilterLang.Proofs.CivilTime
import FilterLang.Proofs.LexemeBoundaries
import FilterLang.Proofs.NumberTexts
import Mathlib.Data.List.Basic

/-!
# Written tokens are read one by one

Keywords, symbols, numbers with fixed places and times are each taken off the
front of a text as one token, if what follows cannot prolong them: no character
of a word behind a word, a number or a time, no point behind a time, and no
second half behind a symbol.
-/

namespace FilterLang

-- Powers of natural numbers are `Nat.pow`, whatever else is in scope.
attribute [local instance (high)] instPowNat

-- What holds of each character of a list is decided along the list.
attribute [local instance (high)] List.decidableBAll

namespace Text

theorem isWordChar_of_isDigit {c : Char} (hc : c.isDigit = true) : isWordChar c = true :=
  (isWordChar_iff c).2 (Or.inr hc)

theorem not_isWordStart_of_isDigit {c : Char} (hc : c.isDigit = true) : isWordStart c = false := by
  have hzero : '0'.toNat = 48 := rfl
  have hnine : '9'.toNat = 57 := rfl
  rw [Bool.eq_false_iff, ne_eq, isWordStart_iff]
  rw [Char.isDigit_iff_toNat] at hc
  omega

theorem not_isDigit_of_startsInWord {rest : List Char} (h : startsInWord rest = false) :
    ∀ c ∈ rest.head?, c.isDigit = false := by
  intro c hc
  cases hdigit : c.isDigit with
  | false => rfl
  | true =>
      rw [Option.mem_def] at hc
      simp [startsInWord, hc, isWordChar_of_isDigit hdigit] at h

end Text

namespace Scan

open Text (isWordChar isWordStart startsInWord)

/-! ## Words and symbols -/

theorem next_keyword (k : Keyword) {rest : List Char} (hrest : startsInWord rest = false) :
    next (k.text.toList ++ rest) = ⟨.ok (.keyword k), rest⟩ := by
  have hshape : ∀ k : Keyword, ∃ c tail, k.text.toList = c :: tail ∧
      isWordStart c = true ∧ (∀ d ∈ tail, isWordChar d = true) ∧
      wordToken (c :: tail) = .keyword k := by
    intro k
    cases k <;> exact ⟨_, _, rfl, by decide, by decide, by decide⟩
  obtain ⟨c, tail, htext, hstart, htail, htoken⟩ := hshape k
  rw [htext, next_wholeWord hstart htail hrest, htoken]

theorem next_booleanText (value : Bool) {rest : List Char} (hrest : startsInWord rest = false) :
    next ((if value then "true" else "false").toList ++ rest) =
      ⟨.ok (.keyword (if value then .true else .false)), rest⟩ := by
  cases value with
  | false =>
      have hstart : isWordStart 'f' = true := rfl
      have htail : ∀ d ∈ ['a', 'l', 's', 'e'], isWordChar d = true := by simp [isWordChar]
      exact next_wholeWord hstart htail hrest
  | true =>
      have hstart : isWordStart 't' = true := rfl
      have htail : ∀ d ∈ ['r', 'u', 'e'], isWordChar d = true := by simp [isWordChar]
      exact next_wholeWord hstart htail hrest

theorem next_symbol (s : Symbol) {rest : List Char}
    (hrest : ∀ d ∈ rest.head?, d ≠ '=' ∧ d ≠ '~') :
    next (s.text.toList ++ rest) = ⟨.ok (.symbol s), rest⟩ := by
  have hsingle : ∀ c : Char, Symbol.ofText? [c] = some s →
      leadingSymbol? c rest = some (s, rest) := by
    intro c hc
    unfold leadingSymbol?
    cases rest with
    | nil => simp [hc]
    | cons d rest =>
        obtain ⟨hequals, htilde⟩ := hrest d rfl
        cases hpair : Symbol.ofText? [c, d] with
        | none => simp [hc, hpair]
        | some s' =>
            rcases second_of_ofText? hpair with rfl | rfl
            · contradiction
            · contradiction
  have hpair : ∀ c d : Char, Symbol.ofText? [c, d] = some s →
      leadingSymbol? c (d :: rest) = some (s, rest) := by
    intro c d hcd
    simp [leadingSymbol?, hcd]
  have hnext : ∀ (c : Char) (text : List Char), c ∈ "=!<>+-*/%(),".toList →
      leadingSymbol? c text = some (s, rest) → next (c :: text) = ⟨.ok (.symbol s), rest⟩ := by
    intro c text hc hleading
    have hplain : ∀ c ∈ "=!<>+-*/%(),".toList, Text.isBlank c = false ∧
        ¬ (c = Text.Quoted.identQuote ∨ c = Text.Quoted.stringQuote) ∧
        isWordStart c = false ∧ c.isDigit = false := by decide
    obtain ⟨hblank, hquote, hword, hdigit⟩ := hplain c hc
    rw [next_of_not_isBlank hblank, lexeme, if_neg hquote, if_neg (by simp [hword]),
      if_neg (by simp [hdigit]), symbol, hleading]
  have htext : (∃ c, s.text.toList = [c] ∧ c ∈ "=!<>+-*/%(),".toList ∧
        Symbol.ofText? [c] = some s) ∨
      ∃ c d, s.text.toList = [c, d] ∧ c ∈ "=!<>+-*/%(),".toList ∧
        Symbol.ofText? [c, d] = some s := by
    cases s <;> first
      | exact Or.inl ⟨_, rfl, by decide, by decide⟩
      | exact Or.inr ⟨_, _, rfl, by decide, by decide⟩
  rcases htext with ⟨c, htext, hc, hs⟩ | ⟨c, d, htext, hc, hs⟩
  · rw [htext]
    exact hnext c rest hc (hsingle c hs)
  · rw [htext]
    exact hnext c (d :: rest) hc (hpair c d hs)

/-! ## Numbers -/

theorem next_digit {c : Char} (hc : c.isDigit = true) (text : List Char) :
    next (c :: text) = timeOrNumber (c :: text) := by
  have hword := Text.not_isWordStart_of_isDigit hc
  have hquote : ¬ (c = Text.Quoted.identQuote ∨ c = Text.Quoted.stringQuote) :=
    not_isQuote_of_isDigit hc
  have hblank := Text.isBlank_of_isWordChar (Text.isWordChar_of_isDigit hc)
  rw [next_of_not_isBlank hblank, lexeme, if_neg hquote, if_neg (by simp [hword]), if_pos hc]

theorem timeShape_eq :
    timeShape = ['d', 'd', 'd', 'd', '-', 'd', 'd', '-', 'd', 'd', ' ',
      'd', 'd', ':', 'd', 'd', ':', 'd', 'd'] := by
  decide

/-- Digits have not the shape of a time unless there are four and a dash follows: they
are too few, or a digit stands in the place of the first dash. -/
theorem timeLexeme?_eq_none {whole rest : List Char}
    (hwhole : ∀ c ∈ whole, c.isDigit = true)
    (hrest : ∀ c ∈ rest.head?, c.isDigit = false ∧ (whole.length = 4 → c ≠ '-')) :
    timeLexeme? (whole ++ rest) = none := by
  have hdash : ∀ c : Char, c.isDigit = true → c ≠ '-' := by
    rintro c hc rfl
    contradiction
  unfold timeLexeme?
  rw [Option.map_eq_none_iff, timeShape_eq]
  match whole with
  | a :: b :: c :: d :: e :: whole =>
      have he := hdash e (hwhole e (by simp))
      simp [splitShape, he]
  | [] | [_] | [_, _] | [_, _, _] =>
      cases rest with
      | nil => simp [splitShape]
      | cons c rest =>
          obtain ⟨hdigit, -⟩ := hrest c rfl
          simp [splitShape, hdigit]
  | [_, _, _, _] =>
      cases rest with
      | nil => simp [splitShape]
      | cons c rest =>
          obtain ⟨-, hc⟩ := hrest c rfl
          simp [splitShape, hc rfl]

theorem numberLexeme_point {whole fraction rest : List Char}
    (hwhole : ∀ c ∈ whole, c.isDigit = true) (hfraction : ∀ c ∈ fraction, c.isDigit = true)
    (hne : fraction ≠ []) (hrest : ∀ c ∈ rest.head?, c.isDigit = false) :
    numberLexeme (whole ++ '.' :: fraction ++ rest) = (whole ++ '.' :: fraction, rest) := by
  have hpoint : ∀ c ∈ ('.' :: (fraction ++ rest)).head?, c.isDigit = false := by
    simp
  obtain ⟨htake, hdrop⟩ := Text.takeWhile_isDigit hwhole hpoint
  obtain ⟨htake', hdrop'⟩ := Text.takeWhile_isDigit hfraction hrest
  unfold numberLexeme
  rw [List.append_assoc, List.cons_append, htake, hdrop]
  cases fraction with
  | nil => contradiction
  | cons c fraction =>
      have hc := hfraction c (List.mem_cons_self ..)
      simp only [List.cons_append] at htake' hdrop' ⊢
      rw [if_pos hc, htake', hdrop']

end Scan

/-- The number nearest to a magnitude rounded to thousandths. -/
def Magnitude.nearestThousandth (magnitude : Magnitude) : Binary64 :=
  Binary64.ofMagnitude? false (ofRatio? (magnitude.roundedTo 3) 1000)

theorem Magnitude.ofDecimal?_thousandths (n : Nat) :
    ofDecimal? n (-3) = ofRatio? n 1000 := by
  have hnum : n * 10 ^ (-3 : Int).toNat = n := Nat.mul_one n
  have hden : 10 ^ (-(-3 : Int)).toNat = 1000 := by decide
  rw [ofDecimal?, hnum, hden]

theorem Binary64.ofText?_point {whole fraction : List Char}
    (hwhole : ∀ c ∈ whole, c.isDigit = true) (hfraction : ∀ c ∈ fraction, c.isDigit = true)
    (hwhole' : whole ≠ []) (hfraction' : fraction ≠ []) :
    ofText? (whole ++ '.' :: fraction) =
      some (ofMagnitude? false (Magnitude.ofDecimal?
        (Nat.ofDigitChars 10 (whole ++ fraction) 0) (-fraction.length))) := by
  have hpoint : ∀ c ∈ ('.' :: fraction).head?, c.isDigit = false := by
    simp
  obtain ⟨htake, hdrop⟩ := Text.takeWhile_isDigit hwhole hpoint
  have hall : fraction.all Char.isDigit = true := List.all_eq_true.2 hfraction
  unfold ofText?
  rw [htake, hdrop]
  simp [hwhole', hfraction', hall]

namespace Scan

open Text (startsInWord)

/-- Digits that are not those of a time are the number that stands there. -/
theorem next_number {c : Char} {tail lexeme rest : List Char} {value : Binary64}
    (hc : c.isDigit = true) (htime : timeLexeme? (c :: tail) = none)
    (hlexeme : numberLexeme (c :: tail) = (lexeme, rest))
    (hread : Binary64.ofText? lexeme = some value) :
    next (c :: tail) = ⟨.ok (.number value), rest⟩ := by
  rw [next_digit hc, timeOrNumber, htime]
  dsimp only
  rw [number, hlexeme]
  dsimp only
  rw [hread]

theorem next_point {whole fraction rest : List Char}
    (hwhole : ∀ c ∈ whole, c.isDigit = true) (hfraction : ∀ c ∈ fraction, c.isDigit = true)
    (hne : whole ≠ []) (hne' : fraction ≠ []) (hrest : ∀ c ∈ rest.head?, c.isDigit = false) :
    next (whole ++ '.' :: fraction ++ rest) =
      ⟨.ok (.number (.ofMagnitude? false (Magnitude.ofDecimal?
        (Nat.ofDigitChars 10 (whole ++ fraction) 0) (-fraction.length)))), rest⟩ := by
  have hnumber := numberLexeme_point hwhole hfraction hne' hrest
  have htime : timeLexeme? (whole ++ '.' :: fraction ++ rest) = none := by
    rw [List.append_assoc]
    refine timeLexeme?_eq_none hwhole ?_
    intro c hc
    cases hc
    exact ⟨rfl, fun _ => by decide⟩
  have hread := Binary64.ofText?_point hwhole hfraction hne hne'
  obtain ⟨c, tail, rfl⟩ := List.exists_cons_of_ne_nil hne
  exact next_number (hwhole c (List.mem_cons_self ..)) htime hnumber hread

theorem next_fixedText (magnitude : Magnitude) {rest : List Char}
    (hrest : startsInWord rest = false) :
    next (magnitude.fixedText 3 ++ rest) = ⟨.ok (.number magnitude.nearestThousandth), rest⟩ := by
  obtain ⟨whole, fraction, htext, hne, hlength, hwhole, hfraction, hvalue⟩ :=
    Magnitude.exists_fixedText (by decide : 0 < 3) magnitude
  have hne' : fraction ≠ [] := by
    intro hnil
    simp [hnil] at hlength
  have hnext := next_point hwhole hfraction hne hne' (Text.not_isDigit_of_startsInWord hrest)
  rw [htext, hnext, hvalue, hlength, Magnitude.nearestThousandth,
    ← Magnitude.ofDecimal?_thousandths]
  rfl

/-! ## Times -/

theorem exists_twoDigits {n : Nat} (hn : n < 100) :
    ∃ a b : Char, Text.decimal 2 n = [a, b] ∧ a.isDigit = true ∧ b.isDigit = true ∧
      Nat.ofDigitChars 10 [a, b] 0 = n := by
  obtain ⟨a, b, hab⟩ := List.length_eq_two.1 (Text.length_decimal (by decide : 0 < 2) hn)
  have hdigit : ∀ c ∈ [a, b], c.isDigit = true := by
    intro c hc
    rw [← hab] at hc
    exact Text.isDigit_of_mem_decimal hc
  have hvalue := Text.ofDigitChars_decimal 2 n
  rw [hab] at hvalue
  exact ⟨a, b, hab, hdigit a (by simp), hdigit b (by simp), hvalue⟩

theorem exists_fourDigits {n : Nat} (hn : n < 10000) :
    ∃ a b c d : Char, Text.decimal 4 n = [a, b, c, d] ∧
      (a.isDigit = true ∧ b.isDigit = true ∧ c.isDigit = true ∧ d.isDigit = true) ∧
      Nat.ofDigitChars 10 [a, b, c, d] 0 = n := by
  obtain ⟨a, b, c, d, habcd⟩ :=
    List.length_eq_four.1 (Text.length_decimal (by decide : 0 < 4) hn)
  have hdigit : ∀ e ∈ [a, b, c, d], e.isDigit = true := by
    intro e he
    rw [← habcd] at he
    exact Text.isDigit_of_mem_decimal he
  have hvalue := Text.ofDigitChars_decimal 4 n
  rw [habcd] at hvalue
  exact ⟨a, b, c, d, habcd,
    ⟨hdigit a (by simp), hdigit b (by simp), hdigit c (by simp), hdigit d (by simp)⟩, hvalue⟩

end Scan

namespace Calendar

/-- Date and clock of an instant in universal time, without its fraction. -/
def Instant.clockReading (i : Instant) : List Char :=
  dateText (i.civil 0).date ++ ' ' :: clockText (i.civil 0)

/-- Whether an instant falls in a year of four digits, in universal time. -/
def Instant.InFourDigitYears (i : Instant) : Prop :=
  0 ≤ (i.civil 0).date.year ∧ (i.civil 0).date.year ≤ 9999

instance (i : Instant) : Decidable i.InFourDigitYears := by
  unfold Instant.InFourDigitYears
  infer_instance

theorem Instant.nanos_div_lt (i : Instant) : (i.civil 0).nanos / 1000000 < 1000 := by
  simp only [civil]
  omega

end Calendar

namespace Scan

open Text (startsInWord)

/-- The characters of a written date and clock and the fields read off them,
whatever fraction stands behind them. -/
theorem clockReading_spec (i : Calendar.Instant) (hyear : i.InFourDigitYears) :
    (∃ c text, i.clockReading = c :: text ∧ c.isDigit = true) ∧
    (∀ rest, splitShape timeShape (i.clockReading ++ rest) = some (i.clockReading, rest)) ∧
    ∀ fraction : List Char,
      instantOf? (i.clockReading ++ fraction) =
        Calendar.Instant.ofCivil? { i.civil 0 with
          nanos := Nat.ofDigitChars 10 (fraction.drop 1) 0 * 10 ^ (9 - (fraction.drop 1).length) }
          0 := by
  obtain ⟨hlow, hhigh⟩ := hyear
  have hmonth := (i.civil 0).date.month_mem.2
  have hday := (i.civil 0).date.day_le
  have hclock := i.civil_clockInRange 0
  have hrange := hclock
  simp only [Calendar.Civil.clockInRange, Bool.and_eq_true, decide_eq_true_eq] at hrange
  obtain ⟨y₁, y₂, y₃, y₄, hy, hydigits, hyear⟩ :=
    exists_fourDigits (by omega : (i.civil 0).date.year.toNat < 10000)
  obtain ⟨m₁, m₂, hm, hm₁, hm₂, hmonth⟩ :=
    exists_twoDigits (by omega : (i.civil 0).date.month < 100)
  obtain ⟨d₁, d₂, hd, hd₁, hd₂, hday⟩ :=
    exists_twoDigits (by omega : (i.civil 0).date.day < 100)
  obtain ⟨h₁, h₂, hh, hh₁, hh₂, hhour⟩ :=
    exists_twoDigits (by omega : (i.civil 0).hour < 100)
  obtain ⟨n₁, n₂, hn, hn₁, hn₂, hminute⟩ :=
    exists_twoDigits (by omega : (i.civil 0).minute < 100)
  obtain ⟨s₁, s₂, hs, hs₁, hs₂, hsecond⟩ :=
    exists_twoDigits (by omega : (i.civil 0).second < 100)
  have hreading : i.clockReading = [y₁, y₂, y₃, y₄, '-', m₁, m₂, '-', d₁, d₂, ' ',
      h₁, h₂, ':', n₁, n₂, ':', s₁, s₂] := by
    rw [Calendar.Instant.clockReading, Calendar.dateText, Calendar.clockText,
      Calendar.yearText, if_pos ⟨hlow, hhigh⟩, hy, hm, hd, hh, hn, hs]
    rfl
  refine ⟨⟨y₁, _, hreading, hydigits.1⟩, ?_, ?_⟩
  · intro rest
    obtain ⟨hy₁, hy₂, hy₃, hy₄⟩ := hydigits
    rw [hreading, timeShape_eq]
    simp [splitShape, hy₁, hy₂, hy₃, hy₄, hm₁, hm₂, hd₁, hd₂, hh₁, hh₂, hn₁, hn₂, hs₁, hs₂]
  · intro fraction
    have hyear' : ((Nat.ofDigitChars 10 [y₁, y₂, y₃, y₄] 0 : Nat) : Int) =
        (i.civil 0).date.year := by
      rw [hyear]
      omega
    have hdate : Calendar.Date.of? (Nat.ofDigitChars 10 [y₁, y₂, y₃, y₄] 0 : Nat)
        (Nat.ofDigitChars 10 [m₁, m₂] 0) (Nat.ofDigitChars 10 [d₁, d₂] 0) =
          some (i.civil 0).date := by
      rw [hyear', hmonth, hday]
      exact Calendar.Date.of?_self _
    rw [hreading]
    simp only [instantOf?, fieldAt, List.cons_append, List.nil_append, List.drop_succ_cons,
      List.drop_zero, List.take_succ_cons, List.take_zero, hdate, hhour, hminute, hsecond,
      hclock, Option.bind_eq_bind, Option.bind_some, if_true]

theorem exists_instantText_eq_cons (i : Calendar.Instant) (hyear : i.InFourDigitYears) :
    ∃ c text, i.text = c :: text ∧ c.isDigit = true := by
  obtain ⟨⟨c, text, hreading, hc⟩, -, -⟩ := clockReading_spec i hyear
  have htext : i.text = i.clockReading ++ Calendar.millisText (i.civil 0).nanos := rfl
  rw [htext, hreading]
  exact ⟨c, _, rfl, hc⟩

theorem timeLexeme?_instantText (i : Calendar.Instant) (hyear : i.InFourDigitYears)
    {rest : List Char} (hrest : ∀ c ∈ rest.head?, c.isDigit = false ∧ c ≠ '.') :
    timeLexeme? (i.text ++ rest) = some (i.text, rest) := by
  obtain ⟨-, hsplit, -⟩ := clockReading_spec i hyear
  have htext : i.text = i.clockReading ++ Calendar.millisText (i.civil 0).nanos := rfl
  rw [htext, List.append_assoc, timeLexeme?, hsplit, Option.map_some]
  by_cases hzero : (i.civil 0).nanos / 1000000 = 0
  · rw [Calendar.millisText, if_pos hzero, List.append_nil, List.nil_append]
    cases rest with
    | nil => rfl
    | cons c rest =>
        have hpoint := (hrest c rfl).2
        simp [hpoint]
  · obtain ⟨a, b, c, habc⟩ := List.length_eq_three.1
      (Text.length_decimal (by decide : 0 < 3) i.nanos_div_lt)
    have hdigits : ∀ d ∈ [a, b, c], d.isDigit = true := by
      intro d hd
      rw [← habc] at hd
      exact Text.isDigit_of_mem_decimal hd
    obtain ⟨htake, -⟩ := Text.takeWhile_isDigit hdigits fun d hd => (hrest d hd).1
    simp only [List.cons_append, List.nil_append] at htake
    rw [Calendar.millisText, if_neg hzero, habc]
    simp [htake]

/-- A written instant reads as the instant that it shows, cut to milliseconds. -/
theorem instantOf?_instantText (i : Calendar.Instant) (hyear : i.InFourDigitYears) :
    instantOf? i.text = some i.shown.toMillis := by
  obtain ⟨-, -, hinstant⟩ := clockReading_spec i hyear
  have htext : i.text = i.clockReading ++ Calendar.millisText (i.civil 0).nanos := rfl
  have hnanos : Nat.ofDigitChars 10 ((Calendar.millisText (i.civil 0).nanos).drop 1) 0 *
      10 ^ (9 - ((Calendar.millisText (i.civil 0).nanos).drop 1).length) =
        (i.civil 0).nanos / 1000000 * 1000000 := by
    unfold Calendar.millisText
    split
    next hzero => simp [hzero]
    next =>
      rw [List.drop_succ_cons, List.drop_zero, Text.ofDigitChars_decimal,
        Text.length_decimal (by decide) i.nanos_div_lt]
  rw [htext, hinstant, hnanos, ← i.civil_toMillis 0, ← i.shown_toMillis]
  exact i.toMillis.ofCivil?_civil (Int.zero_emod 60)

theorem next_instantText (i : Calendar.Instant) (hyear : i.InFourDigitYears)
    {rest : List Char} (hrest : startsInWord rest = false) (hpoint : ∀ c ∈ rest.head?, c ≠ '.') :
    next (i.text ++ rest) = ⟨.ok (.time i.shown.toMillis), rest⟩ := by
  have hnext : next (i.text ++ rest) = timeOrNumber (i.text ++ rest) := by
    obtain ⟨c, text, htext, hc⟩ := exists_instantText_eq_cons i hyear
    rw [htext]
    exact next_digit hc _
  have hlexeme : timeLexeme? (i.text ++ rest) = some (i.text, rest) := by
    apply timeLexeme?_instantText i hyear
    intro d hd
    exact ⟨Text.not_isDigit_of_startsInWord hrest d hd, hpoint d hd⟩
  rw [hnext, timeOrNumber, hlexeme]
  dsimp only
  rw [instantOf?_instantText i hyear]

end Scan
end FilterLang
