import FilterLang.Proofs.LoneTokens

/-!
# Texts of the shape of a time

A text of that shape is one lexeme, and whether it is a time depends on its six fields
alone: they must be a day of the calendar and a time of day, which may be a leap second
at the end of a minute.  The instant then shows the same fields, so its own text begins
with the same nineteen characters.  Behind them stand the first three digits of the
fraction, as far as there are so many and with zeros for the others, unless all three
are zeros.
-/

namespace FilterLang

-- Powers of natural numbers are `Nat.pow`, whatever else is in scope.
attribute [local instance (high)] instPowNat

-- What holds of each character of a list or an option is decided along it.
attribute [local instance (high)] List.decidableBAll Option.decidableForallMem

/-! ## Real dates and times of day -/

/-- The fields are a day that its month has, and hours, minutes and seconds of a day; the
second may be a leap second. -/
structure TimeFields.IsReal (f : TimeFields) : Prop where
  month_mem : 1 ≤ f.month ∧ f.month ≤ 12
  day_mem : 1 ≤ f.day ∧ f.day ≤ Calendar.daysInMonth f.year f.month
  hour_le : f.hour ≤ 23
  minute_le : f.minute ≤ 59
  second_le : f.second ≤ 60

namespace TimeFields

variable {f : TimeFields}

/-- What calendar and clock show with these fields. -/
def civil (f : TimeFields) (h : f.IsReal) (nanos : Nat) : Calendar.Civil where
  date := ⟨f.year, f.month, f.day, h.month_mem, h.day_mem⟩
  hour := f.hour
  minute := f.minute
  second := f.second
  nanos := nanos

theorem IsReal.date (h : f.IsReal) (nanos : Nat) :
    Calendar.Date.of? f.year f.month f.day = some (f.civil h nanos).date := by
  rw [Calendar.Date.of?, dif_pos h.month_mem, dif_pos h.day_mem]
  rfl

theorem IsReal.clockInRange (h : f.IsReal) :
    Calendar.Civil.clockInRange f.hour f.minute f.second = true := by
  have hhour := h.hour_le
  have hminute := h.minute_le
  have hsecond := h.second_le
  simp only [Calendar.Civil.clockInRange, Bool.and_eq_true, decide_eq_true_eq]
  omega

theorem IsReal.of_date {date : Calendar.Date}
    (hdate : Calendar.Date.of? f.year f.month f.day = some date)
    (hclock : Calendar.Civil.clockInRange f.hour f.minute f.second = true) : f.IsReal := by
  simp only [Calendar.Civil.clockInRange, Bool.and_eq_true, decide_eq_true_eq] at hclock
  unfold Calendar.Date.of? at hdate
  split at hdate
  next hmonth =>
    split at hdate
    next hday => exact ⟨hmonth, hday, by omega, by omega, hclock.2⟩
    next => contradiction
  next => contradiction

end TimeFields

section

variable {clock fraction : List Char} {f : TimeFields} {nanos : Nat}

theorem TimeFields.IsReal.timeText (h : f.IsReal) (hclock : ShowsFields clock f)
    (hfraction : SecondFraction fraction nanos) :
    TimeText (clock ++ fraction) (f.civil h nanos) :=
  .time hclock hfraction (h.date nanos) h.clockInRange

namespace Scan

theorem instantOf?_eq_none (hclock : ShowsFields clock f)
    (hfraction : SecondFraction fraction nanos) (h : ¬ f.IsReal) :
    instantOf? (clock ++ fraction) = none := by
  rw [Option.eq_none_iff_forall_ne_some]
  intro i hi
  rw [instantOf?_fields hclock hfraction] at hi
  obtain ⟨date, hdate, hrest⟩ := Option.bind_eq_some_iff.1 hi
  split at hrest
  next hrange => exact h (.of_date hdate hrange)
  next => contradiction

/-- A text of the shape of a time is taken as a whole. -/
theorem timeLexeme?_whole (hclock : ShowsFields clock f)
    (hfraction : SecondFraction fraction nanos) :
    timeLexeme? (clock ++ fraction) = some (clock ++ fraction, []) := by
  obtain ⟨lexeme, rest, hlexeme, hle⟩ := exists_timeLexeme? hclock hfraction []
  rw [List.append_nil] at hlexeme
  obtain ⟨happend, -⟩ := timeLexeme?_front hlexeme
  have hlength := congrArg List.length happend
  rw [List.length_append] at hlength
  have hrest : rest = [] := List.eq_nil_of_length_eq_zero (by omega)
  rw [hlexeme, ← happend, hrest, List.append_nil]

theorem next_mistimed (hclock : ShowsFields clock f)
    (hfraction : SecondFraction fraction nanos) (h : ¬ f.IsReal) :
    next (clock ++ fraction) = misread (.invalidTime (String.ofList (clock ++ fraction)))
      (clock ++ fraction) (clock ++ fraction) := by
  have hwhole := timeLexeme?_whole hclock hfraction
  have hnone := instantOf?_eq_none hclock hfraction h
  obtain ⟨c, tail, rfl, hc⟩ := hclock.exists_cons
  rw [List.cons_append] at hwhole hnone ⊢
  rw [next_digit hc, timeOrNumber, hwhole]
  dsimp only
  rw [hnone]

end Scan

/-! ## What is shown of the fields and the fraction -/

theorem IsField.decimal_eq {count value : Nat} {digits : List Char} (h : IsField count value digits)
    (hcount : 0 < count) : Text.decimal count value = digits := by
  have hne : digits ≠ [] := by
    rw [← List.length_pos_iff, h.length_eq]
    exact hcount
  rw [← h.length_eq, ← h.value_eq]
  exact Text.decimal_ofDigitChars hne h.isDigit

namespace Calendar

/-- Calendar and clock are shown as the fields stand in the text. -/
theorem dateText_clockText_of_showsFields (hclock : ShowsFields clock f) (h : f.IsReal) :
    dateText (f.civil h nanos).date ++ ' ' :: clockText (f.civil h nanos) = clock := by
  have hyear : yearText f.year = Text.decimal 4 f.year := by
    have hlt := hclock.year_lt
    rw [yearText, if_pos (by omega), Int.toNat_natCast]
  cases hclock with
  | fields hyear' hmonth hday hhour hminute hsecond =>
      simp only [dateText, clockText, TimeFields.civil, hyear, hyear'.decimal_eq (by decide),
        hmonth.decimal_eq (by decide), hday.decimal_eq (by decide), hhour.decimal_eq (by decide),
        hminute.decimal_eq (by decide), hsecond.decimal_eq (by decide), List.append_assoc,
        List.cons_append]

/-- The first three digits of a fraction, with zeros for those that are missing. -/
def thousandths (digits : List Char) : List Char :=
  digits.take 3 ++ List.replicate (3 - digits.length) '0'

/-- What a time shows of a fraction: its thousandths, nothing if they are zero. -/
def shownFraction (digits : List Char) : List Char :=
  if thousandths digits = ['0', '0', '0'] then [] else '.' :: thousandths digits

theorem length_thousandths (digits : List Char) : (thousandths digits).length = 3 := by
  rw [thousandths, List.length_append, List.length_take, List.length_replicate]
  omega

theorem isDigit_of_mem_thousandths {digits : List Char}
    (hdigits : ∀ c ∈ digits, c.isDigit = true) : ∀ c ∈ thousandths digits, c.isDigit = true := by
  intro c hc
  rcases List.mem_append.1 hc with hc | hc
  · exact hdigits c (List.mem_of_mem_take hc)
  · rw [List.eq_of_mem_replicate hc]
    rfl

/-- The digits up to the ninth behind the thousandths. -/
theorem exists_thousandths_append {digits : List Char} (hlength : digits.length ≤ 9)
    (hdigits : ∀ c ∈ digits, c.isDigit = true) :
    ∃ back, digits ++ List.replicate (9 - digits.length) '0' = thousandths digits ++ back ∧
      back.length = 6 ∧ ∀ c ∈ back, c.isDigit = true := by
  have htake : (digits ++ List.replicate (9 - digits.length) '0').take 3 = thousandths digits := by
    rw [List.take_append, List.take_replicate, Nat.min_eq_left (by omega), thousandths]
  refine ⟨(digits ++ List.replicate (9 - digits.length) '0').drop 3, ?_, ?_, ?_⟩
  · rw [← htake, List.take_append_drop]
  · rw [List.length_drop, List.length_append, List.length_replicate]
    omega
  · intro c hc
    rcases List.mem_append.1 (List.mem_of_mem_drop hc) with hc | hc
    · exact hdigits c hc
    · rw [List.eq_of_mem_replicate hc]
      rfl

theorem ofDigitChars_thousandths {digits : List Char} (hlength : digits.length ≤ 9)
    (hdigits : ∀ c ∈ digits, c.isDigit = true) :
    Nat.ofDigitChars 10 digits 0 * 10 ^ (9 - digits.length) / 1000000 =
      Nat.ofDigitChars 10 (thousandths digits) 0 := by
  obtain ⟨back, hsplit, hback, hback'⟩ := exists_thousandths_append hlength hdigits
  have hnanos : Nat.ofDigitChars 10 digits 0 * 10 ^ (9 - digits.length) =
      Nat.ofDigitChars 10 (thousandths digits ++ back) 0 := by
    rw [← hsplit, Nat.ofDigitChars_append, Nat.ofDigitChars_replicate_zero, Nat.mul_comm]
  have hdiv := Text.ofDigitChars_append_div (thousandths digits) hback'
  rwa [hback, ← hnanos] at hdiv

theorem millisText_of_digits {digits : List Char} (hlength : digits.length ≤ 9)
    (hdigits : ∀ c ∈ digits, c.isDigit = true) :
    millisText (Nat.ofDigitChars 10 digits 0 * 10 ^ (9 - digits.length)) =
      shownFraction digits := by
  have hfield : Text.decimal 3 (Nat.ofDigitChars 10 (thousandths digits) 0) =
      thousandths digits := by
    have hthree : IsField 3 (Nat.ofDigitChars 10 (thousandths digits) 0) (thousandths digits) :=
      ⟨length_thousandths digits, isDigit_of_mem_thousandths hdigits, rfl⟩
    exact hthree.decimal_eq (by decide)
  have hzero : Nat.ofDigitChars 10 (thousandths digits) 0 = 0 ↔
      thousandths digits = ['0', '0', '0'] := by
    constructor
    · intro h
      rw [← hfield, h]
      rfl
    · intro h
      rw [h]
      rfl
  rw [millisText, ofDigitChars_thousandths hlength hdigits, hfield, shownFraction]
  simp only [hzero]

theorem millisText_of_secondFraction (h : SecondFraction fraction nanos) :
    millisText nanos = shownFraction (fraction.drop 1) := by
  cases h with
  | none => rfl
  | digits _ hlength hdigits => exact millisText_of_digits hlength hdigits

end Calendar

/-- A text of the shape of a time is no time exactly if its fields are no day of the calendar
or no time of day, and otherwise it is a time that shows these fields.  That time has the
text's first nineteen characters, and of its fraction the thousandths. -/
theorem time_texts_are_decoded_and_shown (text : String) (htext : text.toList = clock ++ fraction)
    (hclock : ShowsFields clock f) (hfraction : SecondFraction fraction nanos) :
    (tokenize text = .error ⟨.invalidTime text, .start⟩ ↔ ¬ f.IsReal) ∧
      ∀ h : f.IsReal, ∃ i : Calendar.Instant,
        tokenize text = .ok [.time i] ∧ i.civil 0 = f.civil h nanos ∧ i.LeapEndsMinute 0 ∧
          (Token.time i).text =
            text.toList.take 19 ++ Calendar.shownFraction (text.toList.drop 20) := by
  have hread : ∀ h : f.IsReal, ∃ i : Calendar.Instant,
      tokenize text = .ok [.time i] ∧ i.civil 0 = f.civil h nanos ∧ i.LeapEndsMinute 0 := by
    intro h
    obtain ⟨i, htime, hi⟩ := (h.timeText hclock hfraction).exists_instantText
    have hscan := (Lexeme.time htime).scanAll_blanks_around (List.forall_mem_nil _)
      (List.forall_mem_nil _)
    rw [List.nil_append, List.append_nil, ← htext] at hscan
    exact ⟨i, tokenize_eq_ok_iff.2 hscan, hi, htime.leapEndsMinute⟩
  have hmisread : ¬ f.IsReal → tokenize text = .error ⟨.invalidTime text, .start⟩ := by
    intro h
    have hnext := Scan.next_mistimed hclock hfraction h
    rw [← htext, String.ofList_toList] at hnext
    have hresult : (Scan.next text.toList).result = .error ⟨.invalidTime text, text.toList⟩ := by
      rw [hnext]
      rfl
    rw [tokenize_error (scanAll_of_error hresult), Misread.locate, Nat.sub_self]
    rfl
  constructor
  · constructor
    · intro herror h
      obtain ⟨i, hok, -⟩ := hread h
      rw [herror] at hok
      contradiction
    · exact hmisread
  · intro h
    obtain ⟨i, hok, hi, hleap⟩ := hread h
    have htake : text.toList.take 19 = clock := by
      rw [htext, List.take_left' hclock.length_eq]
    have hdrop : text.toList.drop 20 = fraction.drop 1 := by
      rw [htext]
      exact (Scan.fieldAt_eq hclock fraction).2
    refine ⟨i, hok, hi, hleap, ?_⟩
    rw [htake, hdrop, ← Calendar.millisText_of_secondFraction hfraction,
      ← Calendar.dateText_clockText_of_showsFields hclock h]
    simp only [Token.text, Calendar.Instant.text, hi]
    rfl

/-- A time in a leap second, and a day that its year does not have. -/
theorem time_texts_in_a_leap_second_and_no_leap_year :
    (∃ i : Calendar.Instant, tokenize "2016-12-31 23:59:60.0509" = .ok [.time i] ∧
      (Token.time i).text = "2016-12-31 23:59:60.050".toList) ∧
    tokenize "2021-02-29 00:00:00" = .error ⟨.invalidTime "2021-02-29 00:00:00", .start⟩ := by
  have hleap : ShowsFields "2016-12-31 23:59:60".toList ⟨2016, 12, 31, 23, 59, 60⟩ :=
    @ShowsFields.fields "2016".toList "12".toList "31".toList "23".toList "59".toList "60".toList _
      ⟨rfl, by decide, rfl⟩ ⟨rfl, by decide, rfl⟩ ⟨rfl, by decide, rfl⟩ ⟨rfl, by decide, rfl⟩
      ⟨rfl, by decide, rfl⟩ ⟨rfl, by decide, rfl⟩
  have hfraction : SecondFraction ".0509".toList 50900000 :=
    @SecondFraction.digits "0509".toList (by decide) (by decide) (by decide)
  have hmissing : ShowsFields "2021-02-29 00:00:00".toList ⟨2021, 2, 29, 0, 0, 0⟩ :=
    @ShowsFields.fields "2021".toList "02".toList "29".toList "00".toList "00".toList "00".toList _
      ⟨rfl, by decide, rfl⟩ ⟨rfl, by decide, rfl⟩ ⟨rfl, by decide, rfl⟩ ⟨rfl, by decide, rfl⟩
      ⟨rfl, by decide, rfl⟩ ⟨rfl, by decide, rfl⟩
  constructor
  · have hreal : (⟨2016, 12, 31, 23, 59, 60⟩ : TimeFields).IsReal :=
      ⟨by decide, by decide, by decide, by decide, by decide⟩
    obtain ⟨i, hok, -, -, hshown⟩ :=
      (time_texts_are_decoded_and_shown "2016-12-31 23:59:60.0509" rfl hleap hfraction).2 hreal
    exact ⟨i, hok, hshown⟩
  · apply (time_texts_are_decoded_and_shown "2021-02-29 00:00:00" rfl hmissing .none).1.2
    intro hreal
    have hday := hreal.day_mem.2
    revert hday
    decide

end

end FilterLang
