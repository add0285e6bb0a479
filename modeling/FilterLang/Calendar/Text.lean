import FilterLang.Calendar.Instant
import FilterLang.Text.Characters

/-!
# Texts of instants and moments

A rendered instant is in universal time and has milliseconds if they are not
zero.  A time stamp is the exchange form of a moment: local date and clock, as
few groups of three fraction digits as are exact, and the offset to the minute.
Years outside 0 to 9999 have a sign.
-/

namespace FilterLang
namespace Calendar

def yearText (year : Int) : List Char :=
  if 0 ≤ year ∧ year ≤ 9999 then Text.decimal 4 year.toNat
  else (if year < 0 then '-' else '+') :: Text.decimal 4 year.natAbs

def dateText (d : Date) : List Char :=
  yearText d.year ++ '-' :: Text.decimal 2 d.month ++ '-' :: Text.decimal 2 d.day

def clockText (c : Civil) : List Char :=
  Text.decimal 2 c.hour ++ ':' :: Text.decimal 2 c.minute ++ ':' :: Text.decimal 2 c.second

/-- Milliseconds after a point, nothing if they are zero. -/
def millisText (nanos : Nat) : List Char :=
  if nanos / 1000000 = 0 then [] else '.' :: Text.decimal 3 (nanos / 1000000)

/-- The fewest groups of three digits that give the nanoseconds exactly. -/
def fractionText (nanos : Nat) : List Char :=
  if nanos = 0 then []
  else if nanos % 1000000 = 0 then '.' :: Text.decimal 3 (nanos / 1000000)
  else if nanos % 1000 = 0 then '.' :: Text.decimal 6 (nanos / 1000)
  else '.' :: Text.decimal 9 nanos

/-- `Z`, or sign, hours and minutes of an offset rounded to the nearest minute. -/
def offsetText (offset : Int) : List Char :=
  if offset = 0 then ['Z']
  else
    let minutes := (offset.natAbs + 30) / 60
    (if offset < 0 then '-' else '+') ::
      Text.decimal 2 (minutes / 60) ++ ':' :: Text.decimal 2 (minutes % 60)

def Instant.text (i : Instant) : List Char :=
  let c := i.civil 0
  dateText c.date ++ ' ' :: clockText c ++ millisText c.nanos

/-- The exchange form of a moment. -/
def Moment.stamp (m : Moment) : List Char :=
  let c := m.instant.civil m.offset
  dateText c.date ++ 'T' :: clockText c ++ fractionText c.nanos ++ offsetText m.offset

/-- The exchange form of an instant, in universal time. -/
def Instant.stamp (i : Instant) : List Char :=
  Moment.stamp ⟨i, 0, by decide⟩

end Calendar
end FilterLang
