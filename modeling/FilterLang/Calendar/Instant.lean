import FilterLang.Calendar.Date

/-!
# Instants and moments

An instant counts seconds from the start of 1970 in universal time, with
nanoseconds.  A leap second has no count of its own: it is the second before
it, with a nanosecond count of a thousand million or more.  A moment is an
instant that also remembers the offset of local time.

The calendar reading of an instant names a leap second by the number sixty where
the second before it is the last of a minute.  Anywhere else an instant may have
such a count as well, and the reading is that of the second after it.
-/

namespace FilterLang
namespace Calendar

/-- The first second of the year -262143. -/
def firstSecond : Int := -8334601228800

/-- The last second of the year 262142. -/
def lastSecond : Int := 8210266876799

/-- Whether a count of seconds and nanoseconds is an instant. -/
def IsInstant (seconds : Int) (nanos : Nat) : Prop :=
  firstSecond ≤ seconds ∧ seconds ≤ lastSecond ∧ nanos < 2000000000

instance (seconds : Int) (nanos : Nat) : Decidable (IsInstant seconds nanos) := by
  unfold IsInstant
  infer_instance

structure Instant where
  seconds : Int
  nanos : Nat
  valid : IsInstant seconds nanos
  deriving DecidableEq

/-- The reading of a calendar and a clock; the second may be sixty. -/
structure Civil where
  date : Date
  hour : Nat
  minute : Nat
  second : Nat
  nanos : Nat
  deriving DecidableEq

namespace Instant

def ofUnix? (seconds : Int) (nanos : Nat) : Option Instant :=
  if valid : IsInstant seconds nanos then some ⟨seconds, nanos, valid⟩ else none

/-- What calendar and clock show at an instant, `offset` seconds east. -/
def civil (i : Instant) (offset : Int) : Civil :=
  let localSeconds := i.seconds + offset
  let inDay := (localSeconds % 86400).toNat
  { date := Date.ofDayNumber (localSeconds / 86400)
    hour := inDay / 3600
    minute := inDay / 60 % 60
    second := inDay % 60 + i.nanos / 1000000000
    nanos := i.nanos % 1000000000 }

/-- The instant at which calendar and clock show `c`, `offset` seconds east.  Sixty
seconds are a leap second behind the last second of the minute. -/
def ofCivil? (c : Civil) (offset : Int) : Option Instant :=
  let leap := c.second = 60
  let second := if leap then 59 else c.second
  let nanos := if leap then c.nanos + 1000000000 else c.nanos
  ofUnix? (c.date.dayNumber * 86400 + (c.hour * 3600 + c.minute * 60 + second) - offset) nanos

end Instant

namespace Civil

/-- The hours, minutes and seconds that a clock can show, sixty seconds included. -/
def clockInRange (hour minute second : Nat) : Bool :=
  hour < 24 && minute < 60 && second ≤ 60

end Civil

structure Moment where
  instant : Instant
  offset : Int
  offset_lt : offset.natAbs < 86400
  deriving DecidableEq

namespace Moment

def of? (instant : Instant) (offset : Int) : Option Moment :=
  if h : offset.natAbs < 86400 then some ⟨instant, offset, h⟩ else none

end Moment
end Calendar
end FilterLang
