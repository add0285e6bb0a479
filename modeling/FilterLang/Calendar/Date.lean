/-!
# Dates of the Gregorian calendar

The calendar is extended to all years, with a year zero before year one.  A
date is a year, a month and a day that the month has.  Days are numbered from
the first of January 1970; `ofDayNumber` finds the year by an estimate that is
at most one off, and then the month by taking off the lengths of the months
before it.
-/

namespace FilterLang
namespace Calendar

def isLeap (year : Int) : Bool :=
  year % 4 == 0 && (year % 100 != 0 || year % 400 == 0)

def monthLengths (year : Int) : List Nat :=
  [31, if isLeap year then 29 else 28, 31, 30, 31, 30, 31, 31, 30, 31, 30, 31]

/-- The length of a month, counted from one; months that do not exist have no days. -/
def daysInMonth (year : Int) (month : Nat) : Nat :=
  if month = 0 then 0 else (monthLengths year)[month - 1]?.getD 0

/-- Days from the first of January of year one to that of another year. -/
def daysBeforeYear (year : Int) : Int :=
  365 * (year - 1) + (year - 1) / 4 - (year - 1) / 100 + (year - 1) / 400

def totalDays : List Nat → Nat
  | [] => 0
  | length :: lengths => length + totalDays lengths

def daysBeforeMonth (year : Int) (month : Nat) : Nat :=
  totalDays ((monthLengths year).take (month - 1))

theorem daysBeforeYear_succ (year : Int) :
    daysBeforeYear (year + 1) = daysBeforeYear year + (if isLeap year then 366 else 365) := by
  unfold daysBeforeYear
  by_cases hleap : isLeap year = true
  · rw [if_pos hleap]
    simp only [isLeap, Bool.and_eq_true, Bool.or_eq_true, beq_iff_eq, bne_iff_ne] at hleap
    omega
  · rw [if_neg hleap]
    simp only [isLeap, Bool.and_eq_true, Bool.or_eq_true, beq_iff_eq, bne_iff_ne] at hleap
    omega

theorem totalDays_monthLengths (year : Int) :
    totalDays (monthLengths year) = if isLeap year then 366 else 365 := by
  unfold monthLengths
  split <;> rfl

/-- The year in which a day falls, the first of January of year one being day zero. -/
def yearOfDay (day : Int) : Int :=
  let guess := 400 * day / 146097 + 1
  if day < daysBeforeYear guess then guess - 1
  else if daysBeforeYear (guess + 1) ≤ day then guess + 1
  else guess

theorem daysBeforeYear_yearOfDay_le (day : Int) : daysBeforeYear (yearOfDay day) ≤ day := by
  unfold yearOfDay
  dsimp only
  split
  next =>
    unfold daysBeforeYear
    omega
  split
  next h => exact h
  next => omega

theorem lt_daysBeforeYear_yearOfDay_succ (day : Int) :
    day < daysBeforeYear (yearOfDay day + 1) := by
  unfold yearOfDay
  dsimp only
  split
  next h => rwa [Int.sub_add_cancel]
  split
  next =>
    unfold daysBeforeYear
    omega
  next => omega

/-- Takes whole lengths off a number of days: how many fit, and what is left. -/
def splitDays : List Nat → Nat → Nat × Nat
  | [], days => (0, days)
  | length :: lengths, days =>
      if days < length then (0, days)
      else
        let (count, left) := splitDays lengths (days - length)
        (count + 1, left)

theorem splitDays_lt {lengths : List Nat} {days : Nat} (h : days < totalDays lengths) :
    (splitDays lengths days).2 < lengths[(splitDays lengths days).1]?.getD 0 := by
  induction lengths generalizing days with
  | nil => simp [totalDays] at h
  | cons length lengths ih =>
      unfold splitDays
      split
      · assumption
      · simp only [List.getElem?_cons_succ]
        apply ih
        simp only [totalDays] at h
        omega

theorem splitDays_count_lt {lengths : List Nat} {days : Nat} (h : days < totalDays lengths) :
    (splitDays lengths days).1 < lengths.length := by
  induction lengths generalizing days with
  | nil => simp [totalDays] at h
  | cons length lengths ih =>
      unfold splitDays
      split
      · simp
      · simp only [List.length_cons]
        have hleft : days - length < totalDays lengths := by
          simp only [totalDays] at h
          omega
        have := ih hleft
        omega

structure Date where
  year : Int
  month : Nat
  day : Nat
  month_mem : 1 ≤ month ∧ month ≤ 12
  day_mem : 1 ≤ day ∧ day ≤ daysInMonth year month
  deriving DecidableEq

namespace Date

def of? (year : Int) (month day : Nat) : Option Date :=
  if hmonth : 1 ≤ month ∧ month ≤ 12 then
    if hday : 1 ≤ day ∧ day ≤ daysInMonth year month then
      some ⟨year, month, day, hmonth, hday⟩
    else none
  else none

/-- The day number of the first of January 1970, counted from year one. -/
def epoch : Int := 719162

def dayNumber (d : Date) : Int :=
  daysBeforeYear d.year + daysBeforeMonth d.year d.month + (d.day - 1) - epoch

theorem dayOfYear_lt (day : Int) :
    (day - daysBeforeYear (yearOfDay day)).toNat < totalDays (monthLengths (yearOfDay day)) := by
  have hlow := daysBeforeYear_yearOfDay_le day
  have hhigh := lt_daysBeforeYear_yearOfDay_succ day
  rw [daysBeforeYear_succ] at hhigh
  rw [totalDays_monthLengths]
  split at hhigh
  next hleap =>
    rw [if_pos hleap]
    omega
  next hleap =>
    rw [if_neg hleap]
    omega

def ofDayNumber (number : Int) : Date :=
  let day := number + epoch
  let year := yearOfDay day
  let inYear := (day - daysBeforeYear year).toNat
  have hinYear : inYear < totalDays (monthLengths year) := dayOfYear_lt day
  let parts := splitDays (monthLengths year) inYear
  { year := year
    month := parts.1 + 1
    day := parts.2 + 1
    month_mem := by
      have hcount : parts.1 < (monthLengths year).length := splitDays_count_lt hinYear
      have hlength : (monthLengths year).length = 12 := rfl
      omega
    day_mem := by
      have hlt : parts.2 < (monthLengths year)[parts.1]?.getD 0 := splitDays_lt hinYear
      simp only [daysInMonth, Nat.add_one_ne_zero, if_false, Nat.add_sub_cancel]
      omega }

end Date
end Calendar
end FilterLang
