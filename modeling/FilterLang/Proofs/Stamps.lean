import FilterLang.Calendar.Stamp
import FilterLang.Proofs.CivilTime
import Mathlib.Data.List.Basic

/-!
# Time stamps read back

The reader takes each field of a written stamp in turn: a field of fixed width
ends where its width says or at the next separator, and a signed year at the
dash behind it.  What has been read is the local reading of the moment and its
offset, which give the moment back if the offset has whole minutes and the local
date lies in the years of instants: the moment that is shown, where a leap second
does not end a minute.
-/

namespace FilterLang
namespace Calendar

-- Powers of natural numbers are `Nat.pow`, whatever else is in scope.
attribute [local instance (high)] instPowNat

/-- The moment that calendar and clock show. -/
def Moment.shown (m : Moment) : Moment :=
  { m with instant := m.instant.shown }

theorem Moment.shown_eq_self_iff (m : Moment) : m.shown = m ↔ m.instant.LeapEndsMinute 0 := by
  rw [← m.instant.shown_eq_self_iff]
  constructor
  · intro h
    exact congrArg Moment.instant h
  · intro h
    rw [shown, h]

/-- Moments whose stamps are read: whole minutes of offset, and a local date and
clock in the years of instants. -/
def Moment.Exchangeable (m : Moment) : Prop :=
  m.offset % 60 = 0 ∧ firstSecond ≤ m.instant.seconds + m.offset ∧
    m.instant.seconds + m.offset ≤ lastSecond

instance (m : Moment) : Decidable m.Exchangeable := by
  unfold Moment.Exchangeable
  infer_instance

/-- The offset that a stamp shows: to the nearest minute, away from zero halfway between
two of them. -/
def writtenOffset (offset : Int) : Int :=
  let seconds := (offset.natAbs + 30) / 60 * 60
  if offset < 0 then -(seconds : Int) else seconds

theorem writtenOffset_of_minutes {offset : Int} (h : offset % 60 = 0) :
    writtenOffset offset = offset := by
  unfold writtenOffset
  dsimp only
  split <;> omega

namespace Stamp

theorem isBlank_of_isDigit {c : Char} (hc : c.isDigit = true) : Text.isBlank c = false := by
  have hzero : '0'.toNat = 48 := rfl
  have hnine : '9'.toNat = 57 := rfl
  rw [Char.isDigit_iff_toNat] at hc
  simp only [Text.isBlank, Bool.or_eq_false_iff, Bool.and_eq_false_iff, decide_eq_false_iff_not,
    beq_eq_false_iff_ne]
  omega

theorem skipBlanks_decimal (width n : Nat) (rest : List Char) :
    skipBlanks (Text.decimal width n ++ rest) = Text.decimal width n ++ rest := by
  cases hdigits : Text.decimal width n with
  | nil => exact absurd hdigits (Text.decimal_ne_nil width n)
  | cons c digits =>
      have hc : c.isDigit = true := by
        apply Text.isDigit_of_mem_decimal
        rw [hdigits]
        exact List.mem_cons_self ..
      exact List.dropWhile_cons_of_neg (by simp [isBlank_of_isDigit hc])

theorem readDigits_decimal {limit width n : Nat} (hlimit : (Text.decimal width n).length ≤ limit)
    {rest : List Char} (hrest : ∀ c ∈ rest.head?, c.isDigit = false) :
    readDigits limit (Text.decimal width n ++ rest) = .ok (Text.decimal width n, rest) := by
  have hdigits : ∀ c ∈ Text.decimal width n, c.isDigit = true := by
    intro c hc
    exact Text.isDigit_of_mem_decimal hc
  obtain ⟨htake, -⟩ := Text.takeWhile_isDigit hdigits hrest
  cases hlist : Text.decimal width n with
  | nil => exact absurd hlist (Text.decimal_ne_nil width n)
  | cons c digits =>
      rw [hlist] at hdigits htake hlimit
      have hc := hdigits c (List.mem_cons_self ..)
      rw [List.cons_append] at htake
      rw [List.cons_append, readDigits, if_pos hc, htake, List.take_of_length_le hlimit]
      dsimp only
      rw [← List.cons_append, List.drop_left]

theorem readNumber_decimal {limit width n : Nat} (hlimit : (Text.decimal width n).length ≤ limit)
    {rest : List Char} (hrest : ∀ c ∈ rest.head?, c.isDigit = false) :
    readNumber limit (Text.decimal width n ++ rest) = .ok (n, rest) := by
  rw [readNumber, readDigits_decimal hlimit hrest]
  simp only [bind, Except.bind, pure, Except.pure, Text.ofDigitChars_decimal]

theorem readField_decimal {low high n : Nat} (hlow : low ≤ n) (hhigh : n ≤ high) (hn : n < 100)
    {rest : List Char} (hrest : ∀ c ∈ rest.head?, c.isDigit = false) :
    readField low high (Text.decimal 2 n ++ rest) = .ok (n, rest) := by
  have hlimit : (Text.decimal 2 n).length ≤ 2 :=
    Nat.le_of_eq (Text.length_decimal (by decide) hn)
  rw [readField, skipBlanks_decimal, readNumber_decimal hlimit hrest]
  simp only [bind, Except.bind, if_pos (And.intro hlow hhigh)]
  rfl

theorem readSeparator_self {c : Char} (hc : Text.isBlank c = false) (rest : List Char) :
    readSeparator c (c :: rest) = .ok rest := by
  have hskip : skipBlanks (c :: rest) = c :: rest :=
    List.dropWhile_cons_of_neg (by simp [hc])
  rw [readSeparator, hskip]
  exact if_pos rfl

theorem readYear_minus (digits : List Char) :
    readYear ('-' :: digits) = (do
      let (value, rest) ← readNumber digits.length digits
      if value ≤ 2147483648 then return (-(value : Int), rest) else throw .outOfRange) :=
  rfl

theorem readYear_plus (digits : List Char) :
    readYear ('+' :: digits) = (do
      let (value, rest) ← readNumber digits.length digits
      if value ≤ 2147483647 then return ((value : Int), rest) else throw .outOfRange) :=
  rfl

theorem readYear_decimal (width n : Nat) (rest : List Char) :
    readYear (Text.decimal width n ++ rest) = (do
      let (value, rest) ← readNumber 4 (Text.decimal width n ++ rest)
      return ((value : Int), rest)) := by
  have hdigits : ∀ c ∈ Text.decimal width n, c.isDigit = true := by
    intro c hc
    exact Text.isDigit_of_mem_decimal hc
  rw [readYear, skipBlanks_decimal]
  cases hlist : Text.decimal width n with
  | nil => exact absurd hlist (Text.decimal_ne_nil width n)
  | cons c digits =>
      have hc := hdigits c (by rw [hlist]; exact List.mem_cons_self ..)
      rw [List.cons_append]
      split
      next heq =>
        cases heq
        contradiction
      next heq =>
        cases heq
        contradiction
      next => rfl

theorem readYear_yearText {year : Int} (hlow : -262143 ≤ year) (hhigh : year ≤ 262142)
    (rest : List Char) : readYear (yearText year ++ '-' :: rest) = .ok (year, '-' :: rest) := by
  have hdash : ∀ c ∈ ('-' :: rest).head?, c.isDigit = false := by simp
  unfold yearText
  by_cases hplain : 0 ≤ year ∧ year ≤ 9999
  · have hlimit : (Text.decimal 4 year.toNat).length ≤ 4 :=
      Nat.le_of_eq (Text.length_decimal (by decide) (by omega))
    have hvalue : ((year.toNat : Nat) : Int) = year := by omega
    rw [if_pos hplain, readYear_decimal, readNumber_decimal hlimit hdash]
    simp only [bind, Except.bind, pure, Except.pure, hvalue]
  · have hlimit : (Text.decimal 4 year.natAbs).length ≤
        (Text.decimal 4 year.natAbs ++ '-' :: rest).length := by
      rw [List.length_append]
      omega
    have hread := readNumber_decimal hlimit hdash
    rw [if_neg hplain]
    by_cases hnegative : year < 0
    · have hrange : year.natAbs ≤ 2147483648 := by omega
      have hvalue : -((year.natAbs : Nat) : Int) = year := by omega
      rw [if_pos hnegative, List.cons_append, readYear_minus, hread]
      simp only [bind, Except.bind, pure, Except.pure, if_pos hrange, hvalue]
    · have hrange : year.natAbs ≤ 2147483647 := by omega
      have hvalue : ((year.natAbs : Nat) : Int) = year := by omega
      rw [if_neg hnegative, List.cons_append, readYear_plus, hread]
      simp only [bind, Except.bind, pure, Except.pure, if_pos hrange, hvalue]

theorem readDate_dateText (d : Date) (hlow : -262143 ≤ d.year) (hhigh : d.year ≤ 262142)
    {rest : List Char} (hrest : ∀ c ∈ rest.head?, c.isDigit = false) :
    readDate (dateText d ++ rest) = .ok ((d.year, d.month, d.day), rest) := by
  have hmonth := d.month_mem
  have hday := d.day_le
  have hdash : ∀ back, ∀ c ∈ ('-' :: back).head?, c.isDigit = false := by simp
  have hmonth' := readField_decimal hmonth.1 hmonth.2 (by omega)
    (hdash (Text.decimal 2 d.day ++ rest))
  have hday' := readField_decimal d.day_mem.1 hday (by omega) hrest
  simp only [dateText, List.append_assoc, List.cons_append]
  rw [readDate, readYear_yearText hlow hhigh]
  simp only [bind, Except.bind, readSeparator_self (by decide : Text.isBlank '-' = false),
    hmonth', hday']
  rfl

theorem readFraction_fractionText {nanos : Nat} (hnanos : nanos < 1000000000) {rest : List Char}
    (hrest : ∀ c ∈ rest.head?, c.isDigit = false ∧ c ≠ '.') :
    readFraction (fractionText nanos ++ rest) = .ok (nanos, rest) := by
  have hdigit : ∀ c ∈ rest.head?, c.isDigit = false := by
    intro c hc
    exact (hrest c hc).1
  have hwritten : ∀ width n : Nat, width ≤ 9 → 0 < width → n < 10 ^ width →
      n * 10 ^ (9 - width) = nanos →
      readFraction ('.' :: Text.decimal width n ++ rest) = .ok (nanos, rest) := by
    intro width n hwidth hpositive hn hvalue
    have hlength := Text.length_decimal hpositive hn
    have hdrop : rest.dropWhile Char.isDigit = rest := by
      cases rest with
      | nil => rfl
      | cons c rest => exact List.dropWhile_cons_of_neg (by simp [hdigit c rfl])
    rw [List.cons_append, readFraction, readDigits_decimal (by omega) hdigit]
    simp only [bind, Except.bind, pure, Except.pure, Text.ofDigitChars_decimal, hlength, hvalue,
      hdrop]
  unfold fractionText
  by_cases hzero : nanos = 0
  · rw [if_pos hzero, List.nil_append, hzero]
    cases rest with
    | nil => rfl
    | cons c rest =>
        have hpoint := (hrest c rfl).2
        unfold readFraction
        split
        next heq =>
          cases heq
          contradiction
        next => rfl
  rw [if_neg hzero]
  by_cases hmillis : nanos % 1000000 = 0
  · rw [if_pos hmillis]
    exact hwritten 3 _ (by decide) (by decide) (by omega) (by omega)
  rw [if_neg hmillis]
  by_cases hmicros : nanos % 1000 = 0
  · rw [if_pos hmicros]
    exact hwritten 6 _ (by decide) (by decide) (by omega) (by omega)
  · rw [if_neg hmicros]
    exact hwritten 9 _ (by decide) (by decide) (by omega) (by omega)

theorem readClock_clockText {c : Civil} (hclock : Civil.clockInRange c.hour c.minute c.second)
    (hnanos : c.nanos < 1000000000) {rest : List Char}
    (hrest : ∀ c ∈ rest.head?, c.isDigit = false ∧ c ≠ '.') :
    readClock (clockText c ++ fractionText c.nanos ++ rest) =
      .ok ((c.hour, c.minute, c.second, c.nanos), rest) := by
  simp only [Civil.clockInRange, Bool.and_eq_true, decide_eq_true_eq] at hclock
  obtain ⟨⟨hhour, hminute⟩, hsecond⟩ := hclock
  have hcolon : ∀ back, ∀ c ∈ (':' :: back).head?, c.isDigit = false := by simp
  have hpoint : ∀ d ∈ (fractionText c.nanos ++ rest).head?, d.isDigit = false := by
    unfold fractionText
    by_cases hzero : c.nanos = 0
    · rw [if_pos hzero]
      intro d hd
      exact (hrest d hd).1
    · rw [if_neg hzero]
      split
      · simp
      split
      · simp
      · simp
  have hhour' := readField_decimal (Nat.zero_le _) (by omega : c.hour ≤ 23) (by omega)
    (hcolon (Text.decimal 2 c.minute ++
      ':' :: (Text.decimal 2 c.second ++ (fractionText c.nanos ++ rest))))
  have hminute' := readField_decimal (Nat.zero_le _) (by omega : c.minute ≤ 59) (by omega)
    (hcolon (Text.decimal 2 c.second ++ (fractionText c.nanos ++ rest)))
  have hsecond' := readField_decimal (Nat.zero_le _) hsecond (by omega) hpoint
  simp only [clockText, List.append_assoc, List.cons_append]
  rw [readClock, hhour']
  simp only [bind, Except.bind, readSeparator_self (by decide : Text.isBlank ':' = false),
    hminute', hsecond', readFraction_fractionText hnanos hrest]
  rfl

theorem readPair_decimal {n : Nat} (hn : n < 100) (rest : List Char) :
    readPair (Text.decimal 2 n ++ rest) = .ok (n, rest) := by
  obtain ⟨a, b, hab⟩ := List.length_eq_two.1 (Text.length_decimal (by decide : 0 < 2) hn)
  have hdigits : ∀ c ∈ [a, b], c.isDigit = true := by
    intro c hc
    rw [← hab] at hc
    exact Text.isDigit_of_mem_decimal hc
  have hvalue := Text.ofDigitChars_decimal 2 n
  rw [hab] at hvalue
  have hboth : (a.isDigit && b.isDigit) = true := by
    rw [hdigits a (by simp), hdigits b (by simp)]
    rfl
  rw [hab, List.cons_append, List.cons_append, List.nil_append, readPair, if_pos hboth, hvalue]

theorem readHoursMinutes_decimal {minutes : Nat} (hminutes : minutes < 6000) :
    readHoursMinutes (Text.decimal 2 (minutes / 60) ++ ':' :: Text.decimal 2 (minutes % 60)) =
      .ok (minutes * 60, []) := by
  have hcolon : (':' :: Text.decimal 2 (minutes % 60)).dropWhile
      (fun c => c == ':' || Text.isBlank c) = Text.decimal 2 (minutes % 60) := by
    rw [List.dropWhile_cons_of_pos (by simp)]
    cases hdigits : Text.decimal 2 (minutes % 60) with
    | nil => exact absurd hdigits (Text.decimal_ne_nil _ _)
    | cons c digits =>
        have hc : c.isDigit = true := by
          apply Text.isDigit_of_mem_decimal
          rw [hdigits]
          exact List.mem_cons_self ..
        have hcolon' : c ≠ ':' := by
          rintro rfl
          contradiction
        exact List.dropWhile_cons_of_neg (by simp [hcolon', isBlank_of_isDigit hc])
  have hpair := readPair_decimal (by omega : minutes % 60 < 100) []
  have hrange : minutes % 60 < 60 := Nat.mod_lt _ (by decide)
  have hseconds : minutes / 60 * 3600 + minutes % 60 * 60 = minutes * 60 := by omega
  rw [List.append_nil] at hpair
  rw [readHoursMinutes, readPair_decimal (by omega)]
  simp only [bind, Except.bind, hcolon, hpair, if_pos hrange, hseconds]
  rfl

theorem readOffset_offsetText {offset : Int} (hrange : offset.natAbs < 86400) :
    readOffset (offsetText offset) = .ok (writtenOffset offset, []) := by
  have hread := readHoursMinutes_decimal (by omega : (offset.natAbs + 30) / 60 < 6000)
  unfold offsetText writtenOffset
  by_cases hzero : offset = 0
  · rw [if_pos hzero, hzero]
    rfl
  rw [if_neg hzero]
  by_cases hnegative : offset < 0
  · have hminus : ∀ text, readOffset ('-' :: text) = (do
        let (seconds, rest) ← readHoursMinutes text
        return (-(seconds : Int), rest)) := by
      intro text
      rfl
    simp only [if_pos hnegative]
    rw [List.cons_append, hminus, hread]
    rfl
  · have hplus : ∀ text, readOffset ('+' :: text) = (do
        let (seconds, rest) ← readHoursMinutes text
        return ((seconds : Int), rest)) := by
      intro text
      rfl
    simp only [if_neg hnegative]
    rw [List.cons_append, hplus, hread]
    rfl

end Stamp

/-- Days in the years of instants have dates in these years. -/
theorem yearInRange_civil {m : Moment} (hlow : firstSecond ≤ m.instant.seconds + m.offset)
    (hhigh : m.instant.seconds + m.offset ≤ lastSecond) :
    -262143 ≤ (m.instant.civil m.offset).date.year ∧
      (m.instant.civil m.offset).date.year ≤ 262142 := by
  have hyear : (m.instant.civil m.offset).date.year =
      yearOfDay ((m.instant.seconds + m.offset) / 86400 + Date.epoch) := rfl
  have hbelow := daysBeforeYear_yearOfDay_le
    ((m.instant.seconds + m.offset) / 86400 + Date.epoch)
  have habove := lt_daysBeforeYear_yearOfDay_succ
    ((m.instant.seconds + m.offset) / 86400 + Date.epoch)
  rw [hyear]
  generalize yearOfDay ((m.instant.seconds + m.offset) / 86400 + Date.epoch) = year at *
  unfold firstSecond at hlow
  unfold lastSecond at hhigh
  unfold Date.epoch at hbelow habove
  -- The first and the last year are bounds exactly; beyond them a year is to spare.
  constructor
  · by_cases hedge : year = -262144
    · rw [hedge] at habove
      have hfirst : daysBeforeYear (-262144 + 1) = -95746130 := by decide
      omega
    · unfold daysBeforeYear at habove
      omega
  · by_cases hedge : year = 262143
    · rw [hedge] at hbelow
      have hlast : daysBeforeYear 262143 = 95745399 := by decide
      omega
    · unfold daysBeforeYear at hbelow
      omega

theorem not_isDigit_offsetText (offset : Int) :
    ∀ c ∈ (offsetText offset).head?, c.isDigit = false ∧ c ≠ '.' := by
  unfold offsetText
  by_cases hzero : offset = 0
  · rw [if_pos hzero]
    intro c hc
    cases hc
    decide
  · rw [if_neg hzero]
    intro c hc
    cases hc
    split <;> decide

/-- The exchange form of a moment reads as the instant at which calendar and clock show
the local reading, the offset being the one that is written. -/
theorem Moment.ofStamp_stamp_eq {m : Moment} (hlow : -262143 ≤ (m.instant.civil m.offset).date.year)
    (hhigh : (m.instant.civil m.offset).date.year ≤ 262142) :
    Moment.ofStamp m.stamp =
      if h : (writtenOffset m.offset).natAbs < 86400 then
        match Instant.ofCivil? (m.instant.civil m.offset) (writtenOffset m.offset) with
        | some instant => .ok ⟨instant, writtenOffset m.offset, h⟩
        | none => .error .noSuchMoment
      else .error .outOfRange := by
  have hnanos := m.instant.civil_nanos_lt m.offset
  have hmark : ∀ back, ∀ c ∈ ('T' :: back).head?, c.isDigit = false := by simp
  have hdate := fun back => Stamp.readDate_dateText (m.instant.civil m.offset).date hlow hhigh
    (hmark back)
  have hclock := Stamp.readClock_clockText (m.instant.civil_clockInRange m.offset) hnanos
    (not_isDigit_offsetText m.offset)
  have hoffset := Stamp.readOffset_offsetText m.offset_lt
  have hyear : yearInRange (m.instant.civil m.offset).date.year = true := by
    simp only [yearInRange, Bool.and_eq_true, decide_eq_true_eq]
    exact ⟨hlow, hhigh⟩
  have hT : ∀ back, Stamp.readMark ('T' :: back) = .ok back := by
    intro back
    rfl
  have hend : (Stamp.skipBlanks []).isEmpty = true := rfl
  simp only [Moment.stamp, List.append_assoc, List.cons_append] at hclock ⊢
  rw [Moment.ofStamp, hdate]
  simp only [bind, Except.bind, hT, hclock, hoffset, hend, Date.of?_self, hyear, true_and]
  rfl

/-- The exchange form of a moment with whole minutes of offset reads as the moment that
is shown. -/
theorem Moment.ofStamp_stamp {m : Moment} (h : m.Exchangeable) :
    Moment.ofStamp m.stamp = .ok m.shown := by
  obtain ⟨hoffset, hlow, hhigh⟩ := h
  obtain ⟨hyear, hyear'⟩ := yearInRange_civil hlow hhigh
  rw [Moment.ofStamp_stamp_eq hyear hyear', writtenOffset_of_minutes hoffset, dif_pos m.offset_lt,
    m.instant.ofCivil?_civil hoffset]
  rfl

end Calendar
end FilterLang
