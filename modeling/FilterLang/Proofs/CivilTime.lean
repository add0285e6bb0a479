import FilterLang.Calendar.Text
import FilterLang.Proofs.Digits

/-!
# Instants and their civil readings

Counting days and reading a date are inverse to each other, and so are instants
and what calendar and clock show of them, as long as a leap second ends a minute
both of universal and of local time.  A leap second inside a minute has the reading
of the second after it, and is read as that one.  Cutting an instant to milliseconds
cuts the nanoseconds of its reading and nothing else.
-/

namespace FilterLang
namespace Calendar

-- Powers of natural numbers are `Nat.pow`, whatever else is in scope.
attribute [local instance (high)] instPowNat

theorem totalDays_take_splitDays (lengths : List Nat) (days : Nat) :
    totalDays (lengths.take (splitDays lengths days).1) + (splitDays lengths days).2 =
      days := by
  induction lengths generalizing days with
  | nil => simp [splitDays, totalDays]
  | cons length lengths ih =>
      unfold splitDays
      split
      · simp [totalDays]
      next hge =>
        have hleft := ih (days - length)
        simp only [List.take_succ_cons, totalDays]
        omega

theorem daysBeforeYear_mono {a b : Int} (h : a ≤ b) : daysBeforeYear a ≤ daysBeforeYear b := by
  unfold daysBeforeYear
  omega

/-- A year is found again from each of its days. -/
theorem yearOfDay_eq {year day : Int} (hlow : daysBeforeYear year ≤ day)
    (hhigh : day < daysBeforeYear (year + 1)) : yearOfDay day = year := by
  have hlow' := daysBeforeYear_yearOfDay_le day
  have hhigh' := lt_daysBeforeYear_yearOfDay_succ day
  have hnotLess : ¬ yearOfDay day + 1 ≤ year := by
    intro hle
    have := daysBeforeYear_mono hle
    omega
  have hnotMore : ¬ year + 1 ≤ yearOfDay day := by
    intro hle
    have := daysBeforeYear_mono hle
    omega
  omega

theorem splitDays_totalDays_take {lengths : List Nat} {count left : Nat}
    (h : left < lengths[count]?.getD 0) :
    splitDays lengths (totalDays (lengths.take count) + left) = (count, left) := by
  induction lengths generalizing count with
  | nil => simp at h
  | cons length lengths ih =>
      cases count with
      | zero =>
          have hlt : left < length := by simpa using h
          simp [splitDays, totalDays, hlt]
      | succ count =>
          have hleft : left < lengths[count]?.getD 0 := by simpa using h
          have hsub : length + totalDays (lengths.take count) + left - length =
              totalDays (lengths.take count) + left := by omega
          have hge : ¬ length + totalDays (lengths.take count) + left < length := by omega
          rw [List.take_succ_cons, totalDays, splitDays, if_neg hge, hsub, ih hleft]

theorem totalDays_take_lt {lengths : List Nat} {count left : Nat}
    (h : left < lengths[count]?.getD 0) :
    totalDays (lengths.take count) + left < totalDays lengths := by
  induction lengths generalizing count with
  | nil => simp at h
  | cons length lengths ih =>
      cases count with
      | zero =>
          have hlt : left < length := by simpa using h
          simp only [List.take_zero, totalDays]
          omega
      | succ count =>
          have hleft : left < lengths[count]?.getD 0 := by simpa using h
          have hrest := ih hleft
          simp only [List.take_succ_cons, totalDays]
          omega

namespace Date

theorem of?_self (d : Date) : of? d.year d.month d.day = some d := by
  rw [of?, dif_pos d.month_mem, dif_pos d.day_mem]

theorem year_of_of? {year : Int} {month day : Nat} {d : Date} (h : of? year month day = some d) :
    d.year = year := by
  unfold of? at h
  split at h
  next =>
    split at h
    next =>
      cases h
      rfl
    next => contradiction
  next => contradiction

theorem dayNumber_ofDayNumber (number : Int) : (ofDayNumber number).dayNumber = number := by
  have hlow := daysBeforeYear_yearOfDay_le (number + epoch)
  have hsplit := totalDays_take_splitDays (monthLengths (yearOfDay (number + epoch)))
    (number + epoch - daysBeforeYear (yearOfDay (number + epoch))).toNat
  simp only [dayNumber, ofDayNumber, daysBeforeMonth, Nat.add_sub_cancel]
  push_cast
  omega

theorem day_le (d : Date) : d.day ≤ 31 := by
  have hday := d.day_mem.2
  have hlengths : ∀ n ∈ monthLengths d.year, n ≤ 31 := by
    intro n hn
    simp only [monthLengths, List.mem_cons, List.not_mem_nil, or_false] at hn
    split at hn <;> omega
  have hmonth : (monthLengths d.year)[d.month - 1]?.getD 0 ≤ 31 := by
    cases hlength : (monthLengths d.year)[d.month - 1]? with
    | none => simp
    | some n => exact hlengths n (List.mem_of_getElem? hlength)
  unfold daysInMonth at hday
  split at hday <;> omega

theorem day_lt_length (d : Date) : d.day - 1 < (monthLengths d.year)[d.month - 1]?.getD 0 := by
  obtain ⟨hlow, hhigh⟩ := d.day_mem
  have hmonth := d.month_mem.1
  unfold daysInMonth at hhigh
  rw [if_neg (by omega)] at hhigh
  omega

/-- The days of a date within its year. -/
theorem daysInYear_lt (d : Date) :
    daysBeforeYear d.year + daysBeforeMonth d.year d.month + (d.day - 1) <
      daysBeforeYear (d.year + 1) := by
  have hlt := totalDays_take_lt d.day_lt_length
  have hday := d.day_mem.1
  rw [totalDays_monthLengths] at hlt
  rw [daysBeforeYear_succ]
  unfold daysBeforeMonth
  split at hlt
  next hleap =>
    rw [if_pos hleap]
    omega
  next hleap =>
    rw [if_neg hleap]
    omega

theorem ofDayNumber_dayNumber (d : Date) : ofDayNumber d.dayNumber = d := by
  have hday := d.day_mem.1
  have hmonth := d.month_mem.1
  have hnumber : d.dayNumber + epoch =
      daysBeforeYear d.year + daysBeforeMonth d.year d.month + (d.day - 1) := by
    unfold dayNumber
    omega
  have hyear : yearOfDay (d.dayNumber + epoch) = d.year := by
    apply yearOfDay_eq
    · omega
    · rw [hnumber]
      exact d.daysInYear_lt
  have hinYear : (d.dayNumber + epoch - daysBeforeYear d.year).toNat =
      totalDays ((monthLengths d.year).take (d.month - 1)) + (d.day - 1) := by
    rw [hnumber]
    unfold daysBeforeMonth
    omega
  have hsplit := splitDays_totalDays_take d.day_lt_length
  cases d with
  | mk year month day month_mem day_mem =>
    dsimp only at *
    simp only [ofDayNumber, hyear, hinYear, hsplit, mk.injEq, true_and]
    omega

/-- The days of the years with four digits. -/
theorem dayNumber_of_fourDigits (d : Date) (hyear : 0 ≤ d.year ∧ d.year ≤ 9999) :
    -719528 ≤ d.dayNumber ∧ d.dayNumber ≤ 2932896 := by
  have hlow : daysBeforeYear 0 ≤ daysBeforeYear d.year := daysBeforeYear_mono hyear.1
  have hhigh : daysBeforeYear (d.year + 1) ≤ daysBeforeYear 10000 :=
    daysBeforeYear_mono (by omega)
  have hzero : daysBeforeYear 0 = -366 := by decide
  have htop : daysBeforeYear 10000 = 3652059 := by decide
  have hlast := d.daysInYear_lt
  have hday := d.day_mem.1
  unfold dayNumber epoch
  omega

end Date

namespace Instant

theorem civil_second_le (i : Instant) (offset : Int) : (i.civil offset).second ≤ 60 := by
  have hnanos := i.valid.2.2
  simp only [civil]
  omega

theorem civil_clockInRange (i : Instant) (offset : Int) :
    Civil.clockInRange (i.civil offset).hour (i.civil offset).minute (i.civil offset).second =
      true := by
  have hsecond := i.civil_second_le offset
  have hhour : (i.civil offset).hour < 24 := by
    simp only [civil]
    omega
  have hminute : (i.civil offset).minute < 60 := by
    simp only [civil]
    omega
  simp only [Civil.clockInRange, Bool.and_eq_true, decide_eq_true_eq]
  exact ⟨⟨hhour, hminute⟩, hsecond⟩

theorem civil_nanos_lt (i : Instant) (offset : Int) : (i.civil offset).nanos < 1000000000 :=
  Nat.mod_lt _ (by decide)

/-- A leap second, if the instant is in one, ends a minute of the time `offset` seconds
east. -/
def LeapEndsMinute (i : Instant) (offset : Int) : Prop :=
  1000000000 ≤ i.nanos → (i.seconds + offset) % 60 = 59

instance (i : Instant) (offset : Int) : Decidable (i.LeapEndsMinute offset) := by
  unfold LeapEndsMinute
  infer_instance

/-- Minutes of local time end with those of universal time if the offset is made of them. -/
theorem leapEndsMinute_iff (i : Instant) {offset : Int} (hoffset : offset % 60 = 0) :
    i.LeapEndsMinute offset ↔ i.LeapEndsMinute 0 := by
  unfold LeapEndsMinute
  omega

/-- What is read off the local reading of an instant, under any offset. -/
theorem ofCivil?_civil_eq (i : Instant) (offset written : Int) :
    ofCivil? (i.civil offset) written =
      if i.LeapEndsMinute offset then ofUnix? (i.seconds + (offset - written)) i.nanos
      else ofUnix? (i.seconds + 1 + (offset - written)) (i.nanos - 1000000000) := by
  have hnanos := i.valid.2.2
  have hday : (i.civil offset).date.dayNumber = (i.seconds + offset) / 86400 :=
    Date.dayNumber_ofDayNumber _
  have hclock : ∀ second : Nat,
      (i.civil offset).date.dayNumber * 86400 +
        ((i.civil offset).hour * 3600 + (i.civil offset).minute * 60 + second) - written =
          i.seconds + (second - (i.seconds + offset) % 60) + (offset - written) := by
    intro second
    rw [hday]
    simp only [civil]
    omega
  have hsecond : ((i.civil offset).second : Int) =
      (i.seconds + offset) % 60 + (i.nanos / 1000000000 : Nat) := by
    simp only [civil]
    omega
  have hfraction : (i.civil offset).nanos = i.nanos % 1000000000 := rfl
  unfold ofCivil?
  dsimp only
  rw [hclock, hfraction]
  by_cases hlate : 1000000000 ≤ i.nanos
  · by_cases hends : (i.seconds + offset) % 60 = 59
    · have hleap : i.LeapEndsMinute offset := fun _ => hends
      have hcount : i.nanos % 1000000000 + 1000000000 = i.nanos := by omega
      have hshift : i.seconds + (((59 : Nat) : Int) - 59) = i.seconds := by omega
      rw [if_pos hleap, if_pos (by omega), if_pos (by omega), hends, hcount, hshift]
    · have hleap : ¬ i.LeapEndsMinute offset := fun h => hends (h hlate)
      have hcount : i.nanos % 1000000000 = i.nanos - 1000000000 := by omega
      have hshift : i.seconds + ((i.seconds + offset) % 60 + (i.nanos / 1000000000 : Nat) -
          (i.seconds + offset) % 60) = i.seconds + 1 := by omega
      rw [if_neg hleap, if_neg (by omega), if_neg (by omega), hsecond, hcount, hshift]
  · have hleap : i.LeapEndsMinute offset := fun h => absurd h hlate
    have hcount : i.nanos % 1000000000 = i.nanos := by omega
    have hshift : i.seconds + ((i.seconds + offset) % 60 + (i.nanos / 1000000000 : Nat) -
        (i.seconds + offset) % 60) = i.seconds := by omega
    rw [if_pos hleap, if_neg (by omega), if_neg (by omega), hsecond, hcount, hshift]

theorem ofUnix?_self (i : Instant) : ofUnix? i.seconds i.nanos = some i := by
  rw [ofUnix?, dif_pos i.valid]

theorem eq_of_ofUnix? {seconds : Int} {nanos : Nat} {i : Instant}
    (h : ofUnix? seconds nanos = some i) : i.seconds = seconds ∧ i.nanos = nanos := by
  unfold ofUnix? at h
  split at h
  next =>
    cases h
    exact ⟨rfl, rfl⟩
  next => contradiction

/-- The instant that calendar and clock show: where a leap second of universal time does
not end a minute, it has the reading of the second after it. -/
def shown (i : Instant) : Instant :=
  if h : i.LeapEndsMinute 0 then i
  else
    { seconds := i.seconds + 1
      nanos := i.nanos - 1000000000
      valid := by
        obtain ⟨hfirst, hlast, hnanos⟩ := i.valid
        unfold LeapEndsMinute at h
        unfold IsInstant
        unfold lastSecond at hlast ⊢
        omega }

theorem shown_eq_self_iff (i : Instant) : i.shown = i ↔ i.LeapEndsMinute 0 := by
  unfold shown
  split
  next h => exact iff_of_true rfl h
  next h =>
    refine iff_of_false ?_ h
    intro heq
    have hseconds : i.seconds + 1 = i.seconds := congrArg Instant.seconds heq
    omega

/-- The reading of an instant with an offset of whole minutes is read as the instant that
it shows. -/
theorem ofCivil?_civil (i : Instant) {offset : Int} (hoffset : offset % 60 = 0) :
    ofCivil? (i.civil offset) offset = some i.shown := by
  rw [ofCivil?_civil_eq, Int.sub_self, Int.add_zero, Int.add_zero]
  by_cases hleap : i.LeapEndsMinute 0
  · rw [if_pos ((i.leapEndsMinute_iff hoffset).2 hleap), i.shown_eq_self_iff.2 hleap]
    exact i.ofUnix?_self
  · rw [if_neg fun h => hleap ((i.leapEndsMinute_iff hoffset).1 h), ← i.shown.ofUnix?_self]
    simp only [shown, dif_neg hleap]

theorem civil_shown (i : Instant) {offset : Int} (hoffset : offset % 60 = 0) :
    i.shown.civil offset = i.civil offset := by
  unfold shown
  split
  next => rfl
  next h =>
    have hnanos := i.valid.2.2
    unfold LeapEndsMinute at h
    have hday : (i.seconds + 1 + offset) / 86400 = (i.seconds + offset) / 86400 := by omega
    simp only [civil, hday, Civil.mk.injEq, true_and]
    omega

/-- The instant cut to whole milliseconds. -/
def toMillis (i : Instant) : Instant where
  seconds := i.seconds
  nanos := i.nanos / 1000000 * 1000000
  valid := by
    obtain ⟨hfirst, hlast, hnanos⟩ := i.valid
    exact ⟨hfirst, hlast, by omega⟩

theorem civil_toMillis (i : Instant) (offset : Int) :
    i.toMillis.civil offset =
      { i.civil offset with nanos := (i.civil offset).nanos / 1000000 * 1000000 } := by
  simp only [civil, toMillis, Civil.mk.injEq, true_and]
  omega

theorem toMillis_leapEndsMinute_iff (i : Instant) (offset : Int) :
    i.toMillis.LeapEndsMinute offset ↔ i.LeapEndsMinute offset := by
  simp only [LeapEndsMinute, toMillis]
  omega

theorem shown_toMillis (i : Instant) : i.toMillis.shown = i.shown.toMillis := by
  by_cases hleap : i.LeapEndsMinute 0
  · rw [i.toMillis.shown_eq_self_iff.2 ((i.toMillis_leapEndsMinute_iff 0).2 hleap),
      i.shown_eq_self_iff.2 hleap]
  · have hnanos : i.nanos / 1000000 * 1000000 - 1000000000 =
        (i.nanos - 1000000000) / 1000000 * 1000000 := by omega
    rw [shown, dif_neg fun h => hleap ((i.toMillis_leapEndsMinute_iff 0).1 h), shown,
      dif_neg hleap]
    simp only [toMillis, hnanos]

/-- What is read off a clock with whole minutes of offset is shown by it. -/
theorem leapEndsMinute_of_ofCivil? {c : Civil} {offset : Int} (i : Instant)
    (hnanos : c.nanos < 1000000000) (hoffset : offset % 60 = 0) (h : ofCivil? c offset = some i) :
    i.LeapEndsMinute 0 := by
  obtain ⟨hseconds, hcount⟩ := eq_of_ofUnix? h
  unfold LeapEndsMinute
  by_cases hsixty : c.second = 60
  · rw [if_pos hsixty] at hseconds
    omega
  · rw [if_neg hsixty] at hcount
    omega

theorem civil_of_ofCivil? {c : Civil} {i : Instant}
    (hclock : Civil.clockInRange c.hour c.minute c.second = true) (hnanos : c.nanos < 1000000000)
    (h : ofCivil? c 0 = some i) : i.civil 0 = c := by
  simp only [Civil.clockInRange, Bool.and_eq_true, decide_eq_true_eq] at hclock
  obtain ⟨⟨hhour, hminute⟩, hsecond⟩ := hclock
  have hfields : ∀ second nanos : Nat, second < 60 →
      ofUnix? (c.date.dayNumber * 86400 + (c.hour * 3600 + c.minute * 60 + second) - 0) nanos =
        some i →
      i.civil 0 = ⟨c.date, c.hour, c.minute, second + nanos / 1000000000, nanos % 1000000000⟩ := by
    intro second nanos hlt hunix
    obtain ⟨hseconds, hcount⟩ := eq_of_ofUnix? hunix
    have hday : (i.seconds + 0) / 86400 = c.date.dayNumber := by omega
    have hinDay : ((i.seconds + 0) % 86400).toNat = c.hour * 3600 + c.minute * 60 + second := by
      omega
    simp only [civil, hday, hinDay, hcount, Date.ofDayNumber_dayNumber, Civil.mk.injEq,
      true_and, and_true]
    refine ⟨?_, ?_, ?_⟩ <;> omega
  unfold ofCivil? at h
  dsimp only at h
  split at h
  next hleap =>
    have hcivil := hfields 59 _ (by omega) h
    rw [hcivil]
    cases c
    simp only [Civil.mk.injEq, true_and] at *
    omega
  next hleap =>
    have hcivil := hfields c.second _ (by omega) h
    rw [hcivil]
    cases c
    simp only [Civil.mk.injEq, true_and] at *
    omega

/-- Every date of a year with four digits and every time of day is the reading
of an instant. -/
theorem exists_civil_eq {c : Civil} (hyear : 0 ≤ c.date.year ∧ c.date.year ≤ 9999)
    (hclock : Civil.clockInRange c.hour c.minute c.second = true)
    (hnanos : c.nanos < 1000000000) : ∃ i, ofCivil? c 0 = some i ∧ i.civil 0 = c := by
  have hrange := hclock
  simp only [Civil.clockInRange, Bool.and_eq_true, decide_eq_true_eq] at hrange
  obtain ⟨⟨hhour, hminute⟩, hsecond⟩ := hrange
  obtain ⟨hfirst, hfinal⟩ := c.date.dayNumber_of_fourDigits hyear
  have hvalid : ∀ second nanos : Nat, second < 60 → nanos < 2000000000 →
      IsInstant (c.date.dayNumber * 86400 + (c.hour * 3600 + c.minute * 60 + second) - 0)
        nanos := by
    intro second nanos hlt hcount
    unfold IsInstant firstSecond lastSecond
    omega
  have hsome : ∃ i, ofCivil? c 0 = some i := by
    unfold ofCivil? ofUnix?
    dsimp only
    split
    next hleap =>
      rw [dif_pos (hvalid 59 _ (by omega) (by omega))]
      exact ⟨_, rfl⟩
    next hleap =>
      rw [dif_pos (hvalid c.second _ (by omega) (by omega))]
      exact ⟨_, rfl⟩
  obtain ⟨i, hi⟩ := hsome
  exact ⟨i, hi, civil_of_ofCivil? hclock hnanos hi⟩

end Instant

/-! ## Characters of written times -/

def IsTimeChar (c : Char) : Prop :=
  c.isDigit = true ∨ c ∈ ['-', '+', ' ', ':', '.']

theorem isTimeChar_decimal (width n : Nat) : ∀ c ∈ Text.decimal width n, IsTimeChar c := by
  intro c hc
  exact Or.inl (Text.isDigit_of_mem_decimal hc)

theorem isTimeChar_yearText (year : Int) : ∀ c ∈ yearText year, IsTimeChar c := by
  unfold yearText
  split
  · exact isTimeChar_decimal _ _
  · rw [List.forall_mem_cons]
    refine ⟨Or.inr ?_, isTimeChar_decimal _ _⟩
    split <;> decide

theorem isTimeChar_millisText (nanos : Nat) : ∀ c ∈ millisText nanos, IsTimeChar c := by
  unfold millisText
  split
  · simp
  · rw [List.forall_mem_cons]
    exact ⟨Or.inr (by decide), isTimeChar_decimal _ _⟩

theorem Instant.isTimeChar_text (i : Instant) : ∀ c ∈ i.text, IsTimeChar c := by
  have hdash : IsTimeChar '-' := Or.inr (by decide)
  have hspace : IsTimeChar ' ' := Or.inr (by decide)
  have hcolon : IsTimeChar ':' := Or.inr (by decide)
  simp only [Instant.text, dateText, clockText, List.forall_mem_append, List.forall_mem_cons]
  exact ⟨⟨⟨⟨isTimeChar_yearText _, hdash, isTimeChar_decimal _ _⟩, hdash,
      isTimeChar_decimal _ _⟩, hspace,
    ⟨⟨isTimeChar_decimal _ _, hcolon, isTimeChar_decimal _ _⟩, hcolon,
      isTimeChar_decimal _ _⟩⟩, isTimeChar_millisText _⟩

end Calendar
end FilterLang
