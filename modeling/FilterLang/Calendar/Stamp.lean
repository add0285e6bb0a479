import FilterLang.Calendar.Instant
import FilterLang.Text.Characters

/-!
# Reading time stamps

A time stamp is a date, one of `T`, `t` and a space, a clock reading with an
optional fraction, and an offset.  Blanks may stand before every number and
before the separators inside date and clock, around the offset, and among the
colons between its hours and minutes.

Fields are read from left to right and the first problem decides the fault.  A
field outside the range that it can ever have is found at once; a day that its
month lacks, an offset of a day or more, and a result outside the years of
instants are found at the end.
-/

namespace FilterLang
namespace Calendar

-- Powers of natural numbers are `Nat.pow`, whatever else is in scope.
attribute [local instance (high)] instPowNat

inductive StampFault where
  | endsEarly
  | wrongCharacter
  | outOfRange
  | trailing
  | noSuchMoment
  deriving DecidableEq

namespace StampFault

def message : StampFault → String
  | endsEarly => "premature end of input"
  | wrongCharacter => "input contains invalid characters"
  | outOfRange => "input is out of range"
  | trailing => "trailing input"
  | noSuchMoment => "no possible date and time matching input"

end StampFault

namespace Stamp

def skipBlanks (text : List Char) : List Char :=
  text.dropWhile Text.isBlank

/-- Between one and `limit` digits. -/
def readDigits (limit : Nat) (text : List Char) :
    Except StampFault (List Char × List Char) :=
  match text with
  | [] => .error .endsEarly
  | c :: _ =>
      if c.isDigit then
        let digits := (text.takeWhile Char.isDigit).take limit
        .ok (digits, text.drop digits.length)
      else .error .wrongCharacter

def readNumber (limit : Nat) (text : List Char) : Except StampFault (Nat × List Char) := do
  let (digits, rest) ← readDigits limit text
  return (Nat.ofDigitChars 10 digits 0, rest)

/-- A number of at most two digits between `low` and `high`, after blanks. -/
def readField (low high : Nat) (text : List Char) : Except StampFault (Nat × List Char) := do
  let (value, rest) ← readNumber 2 (skipBlanks text)
  if low ≤ value ∧ value ≤ high then return (value, rest)
  else throw .outOfRange

/-- A year: four digits at most, or any number of them after a sign. -/
def readYear (text : List Char) : Except StampFault (Int × List Char) :=
  match skipBlanks text with
  | '-' :: digits => do
      let (value, rest) ← readNumber digits.length digits
      if value ≤ 2147483648 then return (-(value : Int), rest) else throw .outOfRange
  | '+' :: digits => do
      let (value, rest) ← readNumber digits.length digits
      if value ≤ 2147483647 then return ((value : Int), rest) else throw .outOfRange
  | digits => do
      let (value, rest) ← readNumber 4 digits
      return ((value : Int), rest)

def readSeparator (c : Char) (text : List Char) : Except StampFault (List Char) :=
  match skipBlanks text with
  | [] => .error .endsEarly
  | d :: rest => if d = c then .ok rest else .error .wrongCharacter

def readDate (text : List Char) : Except StampFault ((Int × Nat × Nat) × List Char) := do
  let (year, rest) ← readYear text
  let rest ← readSeparator '-' rest
  let (month, rest) ← readField 1 12 rest
  let rest ← readSeparator '-' rest
  let (day, rest) ← readField 1 31 rest
  return ((year, month, day), rest)

/-- Nanoseconds after a point; digits after the ninth do not count. -/
def readFraction (text : List Char) : Except StampFault (Nat × List Char) :=
  match text with
  | '.' :: digits => do
      let (kept, rest) ← readDigits 9 digits
      return (Nat.ofDigitChars 10 kept 0 * 10 ^ (9 - kept.length), rest.dropWhile Char.isDigit)
  | _ => .ok (0, text)

def readClock (text : List Char) :
    Except StampFault ((Nat × Nat × Nat × Nat) × List Char) := do
  let (hour, rest) ← readField 0 23 text
  let rest ← readSeparator ':' rest
  let (minute, rest) ← readField 0 59 rest
  let rest ← readSeparator ':' rest
  let (second, rest) ← readField 0 60 rest
  let (nanos, rest) ← readFraction rest
  return ((hour, minute, second, nanos), rest)

def readPair (text : List Char) : Except StampFault (Nat × List Char) :=
  match text with
  | [] => .error .endsEarly
  | [c] => if c.utf8Size = 1 then .error .endsEarly else .error .wrongCharacter
  | c :: d :: rest =>
      if c.isDigit && d.isDigit then .ok (Nat.ofDigitChars 10 [c, d] 0, rest)
      else .error .wrongCharacter

/-- Hours and minutes of an offset, in seconds. -/
def readHoursMinutes (text : List Char) : Except StampFault (Nat × List Char) := do
  let (hours, rest) ← readPair text
  let (minutes, rest) ← readPair (rest.dropWhile fun c => c == ':' || Text.isBlank c)
  if minutes < 60 then return (hours * 3600 + minutes * 60, rest)
  else throw .outOfRange

def readOffset (text : List Char) : Except StampFault (Int × List Char) :=
  let text := skipBlanks text
  if (text.take 3).map Char.toUpper = ['U', 'T', 'C'] then .ok (0, text.drop 3)
  else
    match text with
    | [] => .error .endsEarly
    | c :: rest =>
        if c = 'Z' ∨ c = 'z' then .ok (0, rest)
        else if c = '+' then do
          let (seconds, rest) ← readHoursMinutes rest
          return ((seconds : Int), rest)
        else if c = '-' ∨ c = '\u2212' then do
          let (seconds, rest) ← readHoursMinutes rest
          return (-(seconds : Int), rest)
        else .error .wrongCharacter

def readMark (text : List Char) : Except StampFault (List Char) :=
  match text with
  | [] => .error .endsEarly
  | c :: rest => if c = 'T' ∨ c = 't' ∨ c = ' ' then .ok rest else .error .wrongCharacter

end Stamp

def yearInRange (year : Int) : Bool :=
  -262143 ≤ year && year ≤ 262142

def Moment.ofStamp (text : List Char) : Except StampFault Moment := do
  let ((year, month, day), rest) ← Stamp.readDate text
  let rest ← Stamp.readMark rest
  let ((hour, minute, second, nanos), rest) ← Stamp.readClock rest
  let (offset, rest) ← Stamp.readOffset rest
  if !(Stamp.skipBlanks rest).isEmpty then throw .trailing
  let some date := Date.of? year month day | throw .outOfRange
  if hrange : yearInRange year ∧ offset.natAbs < 86400 then
    match Instant.ofCivil? ⟨date, hour, minute, second, nanos⟩ offset with
    | some instant => return ⟨instant, offset, hrange.2⟩
    | none => throw .noSuchMoment
  else throw .outOfRange

end Calendar
end FilterLang
