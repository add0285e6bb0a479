import FilterLang.Proofs.ReadTrees
import FilterLang.Proofs.WrittenTokens

/-!
# Offsets with seconds

A stamp shows the local reading of a moment to the second and below, but its offset
only to the minute.  What is read is the instant at which the clock shows the same
reading under the rounded offset.  It is off by what rounding has changed, half a
minute at most.  A leap second that does not end a minute of local time is off by one
second more, since the clock shows the second after it.  Less than half a minute before
a whole day the rounded offset is a day, and no stamp may have that.
-/

namespace FilterLang

open Calendar (Moment writtenOffset)

namespace Calendar

/-- Whether date and clock at a moment are in a year of four digits, in local time. -/
def Moment.InFourDigitYears (m : Moment) : Prop :=
  0 ≤ (m.instant.civil m.offset).date.year ∧ (m.instant.civil m.offset).date.year ≤ 9999

instance (m : Moment) : Decidable m.InFourDigitYears := by
  unfold Moment.InFourDigitYears
  infer_instance

/-- Rounding an offset that has seconds changes it, by half a minute at most. -/
theorem natAbs_sub_writtenOffset {offset : Int} (h : offset % 60 ≠ 0) :
    1 ≤ (offset - writtenOffset offset).natAbs ∧ (offset - writtenOffset offset).natAbs ≤ 30 := by
  unfold writtenOffset
  dsimp only
  split <;> omega

/-- Nearly a day is written as a day. -/
theorem natAbs_writtenOffset_lt_iff {offset : Int} (h : offset.natAbs < 86400) :
    (writtenOffset offset).natAbs < 86400 ↔ offset.natAbs < 86370 := by
  unfold writtenOffset
  dsimp only
  split <;> omega

namespace Instant

/-- The instant at which the clock shows the same reading under another offset. -/
theorem exists_ofCivil?_civil (i : Instant) {offset written : Int}
    (hyear : 0 ≤ (i.civil offset).date.year ∧ (i.civil offset).date.year ≤ 9999)
    (hwritten : written.natAbs < 86400) :
    ∃ j, ofCivil? (i.civil offset) written = some j ∧
      (i.LeapEndsMinute offset →
        j.seconds = i.seconds + (offset - written) ∧ j.nanos = i.nanos) ∧
      (¬ i.LeapEndsMinute offset →
        j.seconds = i.seconds + 1 + (offset - written) ∧ j.nanos = i.nanos - 1000000000) := by
  have hnanos := i.valid.2.2
  have hday : (i.civil offset).date.dayNumber = (i.seconds + offset) / 86400 :=
    Date.dayNumber_ofDayNumber _
  have hdays := (i.civil offset).date.dayNumber_of_fourDigits hyear
  rw [hday] at hdays
  rw [ofCivil?_civil_eq]
  by_cases hleap : i.LeapEndsMinute offset
  · have hvalid : IsInstant (i.seconds + (offset - written)) i.nanos := by
      unfold IsInstant firstSecond lastSecond
      omega
    rw [if_pos hleap, ofUnix?, dif_pos hvalid]
    exact ⟨_, rfl, fun _ => ⟨rfl, rfl⟩, fun h => absurd hleap h⟩
  · have hvalid : IsInstant (i.seconds + 1 + (offset - written)) (i.nanos - 1000000000) := by
      unfold IsInstant firstSecond lastSecond
      omega
    rw [if_neg hleap, ofUnix?, dif_pos hvalid]
    exact ⟨_, rfl, fun h => absurd h hleap, fun _ => ⟨rfl, rfl⟩⟩

end Instant

namespace Moment.InFourDigitYears

variable {m : Moment} (hyears : m.InFourDigitYears)
include hyears

theorem exchangeable (hoffset : m.offset % 60 = 0) : m.Exchangeable := by
  have hday : (m.instant.civil m.offset).date.dayNumber = (m.instant.seconds + m.offset) / 86400 :=
    Date.dayNumber_ofDayNumber _
  have hdays := (m.instant.civil m.offset).date.dayNumber_of_fourDigits hyears
  rw [hday] at hdays
  unfold Moment.Exchangeable firstSecond lastSecond
  omega

theorem ofStamp_stamp :
    Moment.ofStamp m.stamp =
      if h : (writtenOffset m.offset).natAbs < 86400 then
        match Instant.ofCivil? (m.instant.civil m.offset) (writtenOffset m.offset) with
        | some instant => .ok ⟨instant, writtenOffset m.offset, h⟩
        | none => .error .noSuchMoment
      else .error .outOfRange := by
  obtain ⟨hlow, hhigh⟩ := hyears
  exact Moment.ofStamp_stamp_eq (by omega) (by omega)

/-- Where the rounded offset is less than a day, a stamp reads as the instant that is shifted
by what rounding has changed. -/
theorem exists_ofStamp_stamp (hlt : m.offset.natAbs < 86370) :
    ∃ read : Moment, Moment.ofStamp m.stamp = .ok read ∧
      read.offset = writtenOffset m.offset ∧
      (m.instant.LeapEndsMinute m.offset →
        read.instant.seconds = m.instant.seconds + (m.offset - writtenOffset m.offset) ∧
          read.instant.nanos = m.instant.nanos) ∧
      (¬ m.instant.LeapEndsMinute m.offset →
        read.instant.seconds = m.instant.seconds + 1 + (m.offset - writtenOffset m.offset) ∧
          read.instant.nanos = m.instant.nanos - 1000000000) := by
  have hwritten := (natAbs_writtenOffset_lt_iff m.offset_lt).2 hlt
  obtain ⟨instant, hinstant, hshift⟩ := m.instant.exists_ofCivil?_civil hyears hwritten
  refine ⟨⟨instant, writtenOffset m.offset, hwritten⟩, ?_, rfl, hshift⟩
  rw [hyears.ofStamp_stamp, dif_pos hwritten, hinstant]

theorem ofStamp_stamp_of_day (hge : 86370 ≤ m.offset.natAbs) :
    Moment.ofStamp m.stamp = .error .outOfRange := by
  have hwritten : ¬ (writtenOffset m.offset).natAbs < 86400 :=
    fun hlt => Nat.not_lt.2 hge ((natAbs_writtenOffset_lt_iff m.offset_lt).1 hlt)
  rw [hyears.ofStamp_stamp, dif_neg hwritten]

end Moment.InFourDigitYears
end Calendar

namespace Expr

open Interchange

variable {Op : Type} [OperatorForm Op]

theorem decode_time (id : String) (v : Json.Value) :
    (decode (literal .time id .value v) : Except Mismatch (Expr Op)) =
      (readTime v).map (time id) := by
  have hkind : kindAmong (header .time id ++ [(Field.value.key, v)]) none = .ok .time := rfl
  have hid : Kind.time.field? Field.id.key = some .id := rfl
  have hvalue : Kind.time.field? Field.value.key = some .value := rfl
  rw [literal, decode, hkind]
  simp only [bind, Except.bind, header, List.cons_append, List.nil_append, decodeMembers,
    field?_tagName, hid, hvalue, Draft.fill]
  cases readTime v <;> rfl

/-- A time comes back as what its stamp reads as. -/
theorem throughJson?_time_eq (id : String) (m : Moment) :
    (time id m : Expr Op).throughJson? = (Moment.ofStamp m.stamp).toOption.map (time id) := by
  have hencode : encode (time id m : Expr Op) =
      .ok (literal .time id .value (.string (String.ofList m.stamp))) := rfl
  have hwithin : (literal .time id .value (.string (String.ofList m.stamp))).within? Mismatch
      Json.maxDepth = some (literal .time id .value (.string (String.ofList m.stamp))) := rfl
  have houtermost : ∀ v, (outermost? (literal .time id .value v) : Option (Expr Op)) =
      (decode (literal .time id .value v)).toOption := by
    intro v
    rfl
  rw [throughJson?_of_encode hencode, toOption_ofJson_text, hwithin, Option.bind_some,
    houtermost, decode_time, readTime, String.toList_ofList]
  cases Moment.ofStamp m.stamp <;> rfl

/-- A time comes back as the same instant exactly if its offset has whole minutes and its
leap second, if it is in one, ends a minute of local time.  With whole minutes it always
comes back as the moment that is shown.  In general the instant is shifted by what rounding
the offset has changed, and by one second more in a leap second that does not end a minute
of local time, unless the offset is rounded to a day; then nothing is read. -/
theorem time_through_json (id : String) {m : Moment} (hyears : m.InFourDigitYears) :
    ((∃ read : Moment, (time id m : Expr Op).throughJson? = some (time id read) ∧
      read.instant = m.instant) ↔ m.offset % 60 = 0 ∧ m.instant.LeapEndsMinute m.offset) ∧
    (m.offset % 60 = 0 → (time id m : Expr Op).throughJson? = some (time id m.shown)) ∧
    (m.offset.natAbs < 86370 →
      ∃ read : Moment, (time id m : Expr Op).throughJson? = some (time id read) ∧
        read.offset = writtenOffset m.offset ∧
        (m.instant.LeapEndsMinute m.offset →
          read.instant.seconds = m.instant.seconds + (m.offset - writtenOffset m.offset) ∧
            read.instant.nanos = m.instant.nanos) ∧
        (¬ m.instant.LeapEndsMinute m.offset →
          read.instant.seconds = m.instant.seconds + 1 + (m.offset - writtenOffset m.offset) ∧
            read.instant.nanos = m.instant.nanos - 1000000000)) ∧
    (86370 ≤ m.offset.natAbs → (time id m : Expr Op).throughJson? = none) := by
  have hminutes : m.offset % 60 = 0 →
      (time id m : Expr Op).throughJson? = some (time id m.shown) :=
    fun hoffset => throughJson?_time id (hyears.exchangeable hoffset)
  have hshifted : m.offset.natAbs < 86370 →
      ∃ read : Moment, (time id m : Expr Op).throughJson? = some (time id read) ∧
        read.offset = writtenOffset m.offset ∧
        (m.instant.LeapEndsMinute m.offset →
          read.instant.seconds = m.instant.seconds + (m.offset - writtenOffset m.offset) ∧
            read.instant.nanos = m.instant.nanos) ∧
        (¬ m.instant.LeapEndsMinute m.offset →
          read.instant.seconds = m.instant.seconds + 1 + (m.offset - writtenOffset m.offset) ∧
            read.instant.nanos = m.instant.nanos - 1000000000) := by
    intro hlt
    obtain ⟨read, hread, hshift⟩ := hyears.exists_ofStamp_stamp hlt
    refine ⟨read, ?_, hshift⟩
    rw [throughJson?_time_eq, hread]
    rfl
  have hnone : 86370 ≤ m.offset.natAbs → (time id m : Expr Op).throughJson? = none := by
    intro hge
    rw [throughJson?_time_eq, hyears.ofStamp_stamp_of_day hge]
    rfl
  refine ⟨⟨?_, ?_⟩, hminutes, hshifted, hnone⟩
  · intro ⟨read, hthrough, hsame⟩
    have hlt : m.offset.natAbs < 86370 := by
      by_contra hge
      rw [hnone (Nat.le_of_not_lt hge)] at hthrough
      contradiction
    obtain ⟨read', hthrough', -, hends, hinside⟩ := hshifted hlt
    rw [hthrough, Option.some.injEq, time.injEq] at hthrough'
    obtain ⟨-, rfl⟩ := hthrough'
    rw [hsame] at hends hinside
    -- A leap second inside a minute keeps neither its nanoseconds nor, perhaps, its seconds.
    have hleap : m.instant.LeapEndsMinute m.offset := by
      by_contra hnot
      have hcount := (hinside hnot).2
      unfold Calendar.Instant.LeapEndsMinute at hnot
      omega
    refine ⟨?_, hleap⟩
    by_contra hoffset
    have hrounded := Calendar.natAbs_sub_writtenOffset hoffset
    have hseconds := (hends hleap).1
    omega
  · intro ⟨hoffset, hleap⟩
    have hshown : m.shown = m :=
      m.shown_eq_self_iff.2 ((m.instant.leapEndsMinute_iff hoffset).1 hleap)
    rw [hminutes hoffset, hshown]
    exact ⟨m, rfl, rfl⟩

/-- In a leap second of a local time that is nineteen minutes and thirty-two seconds
ahead, which is written as twenty minutes; and in one that ends a minute of the time one
second ahead. -/
theorem time_through_json_of_local_mean_time :
    ((⟨⟨1483228799, 1500000000, by decide⟩, 1172, by decide⟩ : Moment).InFourDigitYears ∧
      ∃ read : Moment, (time "" ⟨⟨1483228799, 1500000000, by decide⟩, 1172, by decide⟩ :
          Expr Token).throughJson? = some (time "" read) ∧
        read.offset = 1200 ∧ read.instant.seconds = 1483228772 ∧
        read.instant.nanos = 500000000) ∧
    (⟨⟨58, 1000000000, by decide⟩, 1, by decide⟩ : Moment).InFourDigitYears ∧
      ∃ read : Moment, (time "" ⟨⟨58, 1000000000, by decide⟩, 1, by decide⟩ :
          Expr Token).throughJson? = some (time "" read) ∧
        read.offset = 0 ∧ read.instant.seconds = 59 ∧ read.instant.nanos = 1000000000 := by
  constructor
  · have hyears : (⟨⟨1483228799, 1500000000, by decide⟩, 1172, by decide⟩ :
        Moment).InFourDigitYears := by decide +kernel
    obtain ⟨read, hthrough, hoffset, -, hinside⟩ :=
      (@time_through_json Token _ "" _ hyears).2.2.1 (by decide)
    obtain ⟨hseconds, hnanos⟩ := hinside (by decide)
    exact ⟨hyears, read, hthrough, hoffset, hseconds, hnanos⟩
  · have hyears : (⟨⟨58, 1000000000, by decide⟩, 1, by decide⟩ : Moment).InFourDigitYears := by
      decide +kernel
    obtain ⟨read, hthrough, hoffset, hends, -⟩ :=
      (@time_through_json Token _ "" _ hyears).2.2.1 (by decide)
    obtain ⟨hseconds, hnanos⟩ := hends (by decide)
    exact ⟨hyears, read, hthrough, hoffset, hseconds, hnanos⟩

/-- The first second of 1970, one second ahead, is read as the second after it. -/
theorem second_of_offset_is_lost :
    (⟨⟨0, 0, by decide⟩, 1, by decide⟩ : Moment).InFourDigitYears ∧
    (⟨0, 0, by decide⟩ : Calendar.Instant).InFourDigitYears ∧
    ¬ ∃ read : Moment,
      (time "" ⟨⟨0, 0, by decide⟩, 1, by decide⟩ : Expr Token).throughJson? =
        some (time "" read) ∧ read.instant = ⟨0, 0, by decide⟩ := by
  have hread : Moment.ofStamp (⟨⟨0, 0, by decide⟩, 1, by decide⟩ : Moment).stamp =
      .ok ⟨⟨1, 0, by decide⟩, 0, by decide⟩ := by decide +kernel
  refine ⟨by decide +kernel, by decide +kernel, ?_⟩
  rintro ⟨read, hthrough, hsame⟩
  rw [throughJson?_time_eq, hread] at hthrough
  cases hthrough
  contradiction

end Expr
end FilterLang
