import FilterLang.Expr.Node
import FilterLang.Proofs.DisplayedTokens

/-!
# Which time literals are read back

A time literal renders with its year first, and the lexer knows a time by the four
digits of its year.  So a literal of the years 0 to 9999 is read back as one token,
cut to milliseconds.  A leap second inside a minute has the text of the second after
it, and is read back as that one.  An earlier year of four digits has a sign, which is read as a
token of its own in front of a time of the mirrored year.  Where the year has more
digits, it and the month, the day and the hour are read as numbers, and the first
colon is no character of any token.
-/

namespace FilterLang

-- What holds of each character of a list is decided along the list.
attribute [local instance (high)] List.decidableBAll

namespace Calendar

theorem isLeap_neg (year : Int) : isLeap (-year) = isLeap year := by
  rw [Bool.eq_iff_iff]
  simp only [isLeap, Bool.and_eq_true, Bool.or_eq_true, beq_iff_eq, bne_iff_ne]
  omega

/-- The same day as far from the year zero on its other side. -/
def Date.mirror (d : Date) : Date :=
  { d with
    year := -d.year
    day_mem := by
      have hlengths : daysInMonth (-d.year) d.month = daysInMonth d.year d.month := by
        simp only [daysInMonth, monthLengths, isLeap_neg]
      rw [hlengths]
      exact d.day_mem }

def Civil.mirror (c : Civil) : Civil :=
  { c with date := c.date.mirror }

/-- The text of an instant before the year zero: a sign and that of the mirrored one. -/
theorem Instant.text_of_mirror {i j : Instant} (hlow : -9999 ≤ (i.civil 0).date.year)
    (hhigh : (i.civil 0).date.year < 0) (hj : j.civil 0 = (i.civil 0).mirror) :
    i.text = '-' :: j.text := by
  have hyear : yearText (i.civil 0).date.year = '-' :: yearText (-(i.civil 0).date.year) := by
    have habs : (i.civil 0).date.year.natAbs = (-(i.civil 0).date.year).toNat := by omega
    rw [yearText, if_neg (by omega), if_pos hhigh, yearText, if_pos (by omega), habs]
  simp only [text, hj, dateText, clockText, Civil.mirror, Date.mirror, hyear, List.cons_append]

/-- Every instant of the years -9999 to -1 has a mirrored one. -/
theorem Instant.exists_mirror {i : Instant} (hlow : -9999 ≤ (i.civil 0).date.year)
    (hhigh : (i.civil 0).date.year < 0) :
    ∃ j : Instant, j.civil 0 = (i.civil 0).mirror ∧ j.LeapEndsMinute 0 := by
  have hyear : 0 ≤ (i.civil 0).mirror.date.year ∧ (i.civil 0).mirror.date.year ≤ 9999 := by
    simp only [Civil.mirror, Date.mirror]
    omega
  have hnanos : (i.civil 0).mirror.nanos < 1000000000 := i.civil_nanos_lt 0
  obtain ⟨j, hread, hj⟩ := exists_civil_eq hyear (i.civil_clockInRange 0) hnanos
  exact ⟨j, hj, j.leapEndsMinute_of_ofCivil? hnanos (Int.zero_emod 60) hread⟩

end Calendar

/-! ## Parts of times that are read as numbers -/

theorem scanAll_error_of_next {text rest : List Char} {t : Token} {m : Misread}
    (h : Scan.next text = ⟨.ok t, rest⟩) (hend : t ≠ .endOfInput)
    (hrest : scanAll rest = .error m) : scanAll text = .error m := by
  rw [scanAll_of_next h hend, hrest]
  rfl

/-- A decimal field that is not the year of a time does not change where a text fails. -/
theorem scanAll_decimal_error {width n : Nat} {rest : List Char} {m : Misread}
    (hrest : ∀ c ∈ rest.head?, c.isDigit = false ∧ c ≠ '.' ∧
      ((Text.decimal width n).length = 4 → c ≠ '-'))
    (h : scanAll rest = .error m) : scanAll (Text.decimal width n ++ rest) = .error m := by
  have hnumber := NumberText.whole (Text.decimal_ne_nil width n)
    fun c hc => Text.isDigit_of_mem_decimal hc
  exact scanAll_error_of_next (Scan.next_numberText hnumber hrest) (by simp) h

theorem isDigit_of_mem_head_decimal (width n : Nat) (rest : List Char) :
    ∀ c ∈ (Text.decimal width n ++ rest).head?, c.isDigit = true := by
  obtain ⟨d, tail, hdecimal⟩ := List.exists_cons_of_ne_nil (Text.decimal_ne_nil width n)
  intro c hc
  rw [hdecimal, List.cons_append, List.head?_cons, Option.mem_some_iff] at hc
  have hmem : c ∈ Text.decimal width n := by
    rw [hdecimal, ← hc]
    exact List.mem_cons_self ..
  exact Text.isDigit_of_mem_decimal hmem

theorem ne_half_of_isDigit {c : Char} (hc : c.isDigit = true) : c ≠ '=' ∧ c ≠ '~' := by
  constructor <;>
    · rintro rfl
      contradiction

theorem scanAll_sign_error {sign : Char} (hsign : sign = '-' ∨ sign = '+') {text : List Char}
    {m : Misread} (htext : ∀ c ∈ text.head?, c.isDigit = true) (h : scanAll text = .error m) :
    scanAll (sign :: text) = .error m := by
  have hhalf : ∀ d ∈ text.head?, d ≠ '=' ∧ d ≠ '~' :=
    fun d hd => ne_half_of_isDigit (htext d hd)
  rcases hsign with rfl | rfl
  · exact scanAll_error_of_next (Scan.next_symbol .minus hhalf) (by simp) h
  · exact scanAll_error_of_next (Scan.next_symbol .plus hhalf) (by simp) h

/-- No token begins with a colon. -/
theorem scanAll_colon (rest : List Char) :
    scanAll (':' :: rest) = .error ⟨.unexpectedChar ':', ':' :: rest⟩ := by
  have hnone : ∀ text : List Char, Symbol.ofText? (':' :: text) = none := by
    intro text
    cases hsymbol : Symbol.ofText? (':' :: text) with
    | none => rfl
    | some s =>
        have htext : s.text.toList = ':' :: text := by simpa using List.find?_some hsymbol
        have hall : ∀ s ∈ Symbol.all, s.text.toList.head? ≠ some ':' := by decide
        exact absurd (congrArg List.head? htext) (hall s s.mem_all)
  have hleading : Scan.leadingSymbol? ':' rest = none := by
    cases rest with
    | nil => simp only [Scan.leadingSymbol?, hnone, Option.map_none]
    | cons d rest => simp only [Scan.leadingSymbol?, hnone, Option.map_none]
  have hnext : Scan.next (':' :: rest) = Scan.symbol ':' rest :=
    Scan.next_of_not_isBlank rfl rest
  apply scanAll_of_error
  rw [hnext, Scan.symbol, hleading]
  rfl

theorem scanAll_blank (text : List Char) : scanAll (' ' :: text) = scanAll text := by
  apply scanAll_congr
  rw [Scan.next, List.dropWhile_cons_of_pos rfl, ← Scan.next]

theorem length_decimal_four_ne {n : Nat} (hn : 9999 < n) : (Text.decimal 4 n).length ≠ 4 := by
  intro hlength
  have hdigits : ∀ c ∈ Text.decimal 4 n, c.isDigit = true := fun c => Text.isDigit_of_mem_decimal
  have hlt := Text.ofDigitChars_lt hdigits
  rw [Text.ofDigitChars_decimal, hlength] at hlt
  omega

/-- A date and clock whose year has more than four digits fail at the first colon. -/
theorem scanAll_longYear {c : Calendar.Civil} (hyear : 9999 < c.date.year.natAbs)
    (rest : List Char) :
    scanAll (Calendar.dateText c.date ++ ' ' :: Text.decimal 2 c.hour ++ ':' :: rest) =
      .error ⟨.unexpectedChar ':', ':' :: rest⟩ := by
  have htwo : ∀ n, n < 100 → (Text.decimal 2 n).length ≠ 4 := by
    intro n hn hlength
    rw [Text.length_decimal (by decide) hn] at hlength
    contradiction
  have hmonth : c.date.month < 100 := by
    have := c.date.month_mem
    omega
  have hlong := length_decimal_four_ne hyear
  -- The parts of the date from the last one to the first, each in front of the next.
  have hfromHour : scanAll (Text.decimal 2 c.hour ++ ':' :: rest) =
      .error ⟨.unexpectedChar ':', ':' :: rest⟩ :=
    scanAll_decimal_error (by simp) (scanAll_colon rest)
  have hfromDay : scanAll (Text.decimal 2 c.date.day ++
      ' ' :: (Text.decimal 2 c.hour ++ ':' :: rest)) = _ :=
    scanAll_decimal_error (by simp) ((scanAll_blank _).trans hfromHour)
  have hfromMonth : scanAll (Text.decimal 2 c.date.month ++ '-' :: (Text.decimal 2 c.date.day ++
      ' ' :: (Text.decimal 2 c.hour ++ ':' :: rest))) = _ :=
    scanAll_decimal_error (by simp [htwo _ hmonth])
      (scanAll_sign_error (Or.inl rfl) (isDigit_of_mem_head_decimal _ _ _) hfromDay)
  have hfromYear : scanAll (Text.decimal 4 c.date.year.natAbs ++ '-' ::
      (Text.decimal 2 c.date.month ++ '-' :: (Text.decimal 2 c.date.day ++
        ' ' :: (Text.decimal 2 c.hour ++ ':' :: rest)))) = _ :=
    scanAll_decimal_error (by simp [hlong])
      (scanAll_sign_error (Or.inl rfl) (isDigit_of_mem_head_decimal _ _ _) hfromMonth)
  have hsign : (if c.date.year < 0 then '-' else '+') = '-' ∨
      (if c.date.year < 0 then '-' else '+') = '+' := by
    split
    · exact Or.inl rfl
    · exact Or.inr rfl
  have hall := scanAll_sign_error hsign (isDigit_of_mem_head_decimal _ _ _) hfromYear
  rw [Calendar.dateText, Calendar.yearText, if_neg (by omega)]
  simpa only [List.append_assoc, List.cons_append] using hall

/-! ## Written instants -/

theorem scanAll_instantText {i : Calendar.Instant} (h : i.InFourDigitYears) :
    scanAll i.text = .ok [.time i.shown.toMillis] := by
  have hstart : Text.startsInWord [] = false := rfl
  have hnext := Scan.next_instantText i h hstart (by simp)
  rw [List.append_nil] at hnext
  rw [scanAll_of_next hnext (by simp), scanAll_blanks (by simp)]
  rfl

theorem scanAll_instantText_before {i : Calendar.Instant} (hlow : -9999 ≤ (i.civil 0).date.year)
    (hhigh : (i.civil 0).date.year < 0) :
    ∃ j : Calendar.Instant, j.civil 0 = (i.civil 0).mirror ∧ j.LeapEndsMinute 0 ∧
      scanAll i.text = .ok [.symbol .minus, .time j.toMillis] := by
  obtain ⟨j, hj, hleap⟩ := Calendar.Instant.exists_mirror hlow hhigh
  have hyear : j.InFourDigitYears := by
    rw [Calendar.Instant.InFourDigitYears, hj]
    simp only [Calendar.Civil.mirror, Calendar.Date.mirror]
    omega
  have hhalf : ∀ d ∈ j.text.head?, d ≠ '=' ∧ d ≠ '~' := by
    obtain ⟨c, text, htext, hc⟩ := Scan.exists_instantText_eq_cons j hyear
    intro d hd
    rw [htext] at hd
    cases hd
    exact ne_half_of_isDigit hc
  have hnext : Scan.next ('-' :: j.text) = ⟨.ok (.symbol .minus), j.text⟩ :=
    Scan.next_symbol .minus hhalf
  refine ⟨j, hj, hleap, ?_⟩
  rw [Calendar.Instant.text_of_mirror hlow hhigh hj, scanAll_of_next hnext (by simp),
    scanAll_instantText hyear, j.shown_eq_self_iff.2 hleap]
  rfl

/-- The text of an instant up to its first colon. -/
theorem exists_instantText_eq (i : Calendar.Instant) :
    ∃ rest, i.text = Calendar.dateText (i.civil 0).date ++
      ' ' :: Text.decimal 2 (i.civil 0).hour ++ ':' :: rest := by
  refine ⟨Text.decimal 2 (i.civil 0).minute ++ ':' :: Text.decimal 2 (i.civil 0).second ++
    Calendar.millisText (i.civil 0).nanos, ?_⟩
  simp only [Calendar.Instant.text, Calendar.clockText, List.append_assoc, List.cons_append]

namespace Expr

variable {Op : Type} [CanonicalText Op]

theorem toList_render_time (id : String) (m : Calendar.Moment) :
    (time id m : Expr Op).render.toList = m.instant.text := by
  rw [render, String.toList_ofList, text]

theorem tokenize_time_of_scanAll (id : String) {m : Calendar.Moment} {tokens : List Token}
    (h : scanAll m.instant.text = .ok tokens) :
    tokenize (time id m : Expr Op).render = .ok tokens := by
  rw [tokenize_eq_ok_iff, toList_render_time, h]

theorem tokenize_time_of_longYear (id : String) {m : Calendar.Moment}
    (hyear : 9999 < (m.instant.civil 0).date.year.natAbs) :
    tokenize (time id m : Expr Op).render = .error ⟨.unexpectedChar ':',
      .after (Calendar.dateText (m.instant.civil 0).date ++
        ' ' :: Text.decimal 2 (m.instant.civil 0).hour)⟩ := by
  obtain ⟨rest, hrest⟩ := exists_instantText_eq m.instant
  have htext := (@toList_render_time Op _ id m).trans hrest
  have hfail := scanAll_longYear hyear rest
  rw [← htext] at hfail
  rw [tokenize_error hfail, Misread.locate, htext, List.length_append, Nat.add_sub_cancel,
    List.take_left]

/-- A time literal reads back as itself, cut to milliseconds, exactly in the years of four
digits and unless it is in a leap second inside a minute.  In these years it always reads
back as one time, the one that it shows.  Before them its sign is a token of its own, and
where the year has more digits the text fails at its first colon. -/
theorem tokenize_time_literal (id : String) (m : Calendar.Moment) :
    (tokenize (time id m : Expr Op).render = .ok [.time m.instant.toMillis] ↔
      m.instant.InFourDigitYears ∧ m.instant.LeapEndsMinute 0) ∧
    (m.instant.InFourDigitYears →
      tokenize (time id m : Expr Op).render = .ok [.time m.instant.shown.toMillis]) ∧
    (-9999 ≤ (m.instant.civil 0).date.year ∧ (m.instant.civil 0).date.year < 0 →
      ∃ j : Calendar.Instant, j.civil 0 = (m.instant.civil 0).mirror ∧ j.LeapEndsMinute 0 ∧
        tokenize (time id m : Expr Op).render = .ok [.symbol .minus, .time j.toMillis]) ∧
    (9999 < (m.instant.civil 0).date.year.natAbs →
      tokenize (time id m : Expr Op).render = .error ⟨.unexpectedChar ':',
        .after (Calendar.dateText (m.instant.civil 0).date ++
          ' ' :: Text.decimal 2 (m.instant.civil 0).hour)⟩) := by
  have hwithin : m.instant.InFourDigitYears →
      tokenize (time id m : Expr Op).render = .ok [.time m.instant.shown.toMillis] :=
    fun hyear => tokenize_time_of_scanAll id (scanAll_instantText hyear)
  have hbefore : -9999 ≤ (m.instant.civil 0).date.year ∧ (m.instant.civil 0).date.year < 0 →
      ∃ j : Calendar.Instant, j.civil 0 = (m.instant.civil 0).mirror ∧ j.LeapEndsMinute 0 ∧
        tokenize (time id m : Expr Op).render = .ok [.symbol .minus, .time j.toMillis] := by
    intro hyears
    obtain ⟨j, hj, hleap, hscan⟩ := scanAll_instantText_before hyears.1 hyears.2
    exact ⟨j, hj, hleap, tokenize_time_of_scanAll id hscan⟩
  refine ⟨⟨?_, ?_⟩, hwithin, hbefore, tokenize_time_of_longYear id⟩
  · intro hread
    by_cases hyear : m.instant.InFourDigitYears
    · rw [hwithin hyear, ← m.instant.shown_toMillis] at hread
      have hsame : m.instant.toMillis.shown = m.instant.toMillis := by simpa using hread
      rw [m.instant.toMillis.shown_eq_self_iff, m.instant.toMillis_leapEndsMinute_iff] at hsame
      exact ⟨hyear, hsame⟩
    have hcases : (-9999 ≤ (m.instant.civil 0).date.year ∧ (m.instant.civil 0).date.year < 0) ∨
        9999 < (m.instant.civil 0).date.year.natAbs := by
      rw [Calendar.Instant.InFourDigitYears] at hyear
      omega
    rcases hcases with hyears | hyears
    · obtain ⟨j, -, -, hminus⟩ := hbefore hyears
      rw [hread] at hminus
      cases hminus
    · rw [tokenize_time_of_longYear id hyears] at hread
      cases hread
  · rintro ⟨hyear, hleap⟩
    rw [hwithin hyear, m.instant.shown_eq_self_iff.2 hleap]

theorem civil_before_year_zero : Calendar.Instant.civil ⟨-62167219201, 0, by decide⟩ 0 =
    ⟨⟨-1, 12, 31, by decide, by decide⟩, 23, 59, 59, 0⟩ := by
  decide +kernel

/-- A leap second with a fraction, one that ends a minute of local time only, the last
second before the year zero and the first of the year 10000. -/
theorem tokenize_time_literal_at_the_bounds :
    tokenize (time "" ⟨⟨1483228799, 1500400000, by decide⟩, 3600, by decide⟩ :
        Expr Token).render =
      .ok [.time ⟨1483228799, 1500000000, by decide⟩] ∧
    tokenize (time "" ⟨⟨58, 1000000000, by decide⟩, 1, by decide⟩ : Expr Token).render =
      .ok [.time ⟨59, 0, by decide⟩] ∧
    (∃ j : Calendar.Instant, j.civil 0 = ⟨⟨1, 12, 31, by decide, by decide⟩, 23, 59, 59, 0⟩ ∧
      tokenize (time "" ⟨⟨-62167219201, 0, by decide⟩, 0, by decide⟩ : Expr Token).render =
        .ok [.symbol .minus, .time j.toMillis]) ∧
    tokenize (time "" ⟨⟨253402300800, 0, by decide⟩, 0, by decide⟩ : Expr Token).render =
      .error ⟨.unexpectedChar ':', ⟨1, 16⟩⟩ := by
  have hafter : Calendar.Instant.civil ⟨253402300800, 0, by decide⟩ 0 =
      ⟨⟨10000, 1, 1, by decide, by decide⟩, 0, 0, 0, 0⟩ := by
    decide +kernel
  refine ⟨?_, ?_, ?_, ?_⟩
  · apply (tokenize_time_literal _ _).1.2
    decide +kernel
  · apply (tokenize_time_literal _ _).2.1
    decide +kernel
  · have hread := (@tokenize_time_literal Token _ ""
      ⟨⟨-62167219201, 0, by decide⟩, 0, by decide⟩).2.2.1
    rw [civil_before_year_zero] at hread
    obtain ⟨j, hj, -, hok⟩ := hread (by decide)
    exact ⟨j, hj, hok⟩
  · have hread := (@tokenize_time_literal Token _ ""
      ⟨⟨253402300800, 0, by decide⟩, 0, by decide⟩).2.2.2
    rw [hafter] at hread
    exact hread (by decide)

/-- The last second before the year zero is not read back as one token. -/
theorem tokenize_time_literal_before_year_zero :
    tokenize (time "" ⟨⟨-62167219201, 0, by decide⟩, 0, by decide⟩ : Expr Token).render ≠
      .ok [.time ⟨-62167219201, 0, by decide⟩] := by
  have hlow : -9999 ≤ (Calendar.Instant.civil ⟨-62167219201, 0, by decide⟩ 0).date.year := by
    rw [civil_before_year_zero]
    decide
  have hhigh : (Calendar.Instant.civil ⟨-62167219201, 0, by decide⟩ 0).date.year < 0 := by
    rw [civil_before_year_zero]
    decide
  obtain ⟨j, -, -, hscan⟩ := scanAll_instantText_before hlow hhigh
  have hminus : tokenize (time "" ⟨⟨-62167219201, 0, by decide⟩, 0, by decide⟩ :
      Expr Token).render = .ok [.symbol .minus, .time j.toMillis] :=
    tokenize_time_of_scanAll "" hscan
  rw [hminus]
  simp

end Expr
end FilterLang
