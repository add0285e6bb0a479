import FilterLang.Binary64.Text
import FilterLang.Json.Fault

/-!
# JSON values and their numbers

Objects keep their members in the order written, repeated names included.  A
number written as an integer that fits in sixty-four bits stays an integer;
any other number is the one that the reader finds.

Digits are gathered into a significand below `2 ^ 64`.  Once another digit would
not fit, the further digits of the whole part only raise the exponent of ten and
those of the fraction are dropped.  The significand is rounded to a number and
then multiplied or divided by the number nearest to the power of ten, so the
result need not be the number nearest to the text.

Written numbers have the fewest digits that read back exactly, with a fraction
or an exponent that marks them as no integers.
-/

namespace FilterLang
namespace Json

-- Powers of natural numbers are `Nat.pow`, whatever else is in scope.
attribute [local instance (high)] instPowNat

inductive Number where
  | integer (value : Int)
  | float (value : Binary64)
  deriving DecidableEq

inductive Value where
  | null
  | bool (value : Bool)
  | number (value : Number)
  | string (value : String)
  | array (items : List Value)
  | object (members : List (String × Value))

/-- Numbers in JSON texts: positional from `0.00001` up to below `10 ^ 16`. -/
def numberStyle : NumberStyle where
  tie := .toEven
  positional := fun point => -4 ≤ point && point ≤ 16
  keepsFraction := true
  signsExponent := true

namespace Number

def toBinary64 : Number → Binary64
  | integer value => Binary64.ofMagnitude? (value < 0) (Magnitude.ofRatio? value.natAbs 1)
  | float value => value

def powerOfTen? (exponent : Nat) : Option Magnitude :=
  Magnitude.ofRatio? (10 ^ exponent) 1

/-- Divides by `10 ^ 308` a number of times, as long as anything is left. -/
def scaleDown (magnitude : Magnitude) : (times : Nat) → Option Magnitude
  | 0 => some magnitude
  | times + 1 => do
      if magnitude.units = 0 then some magnitude
      else scaleDown (← magnitude.div? (← powerOfTen? 308)) times

/-- The magnitude read from a significand and an exponent of ten; `none` if it
is too large. -/
def magnitudeOf? (significand : Nat) (exponent : Int) : Option Magnitude := do
  let start ← Magnitude.ofRatio? significand 1
  if 0 ≤ exponent then
    if exponent ≤ 308 then start.mul? (← powerOfTen? exponent.toNat)
    else if significand = 0 then some start
    else none
  else
    let digits := exponent.natAbs
    let times := (digits - 1) / 308
    let scaled ← scaleDown start times
    scaled.div? (← powerOfTen? (digits - 308 * times))

/-- The magnitude of the least negative integer, `2 ^ 63`. -/
def maxNegated : Nat := 9223372036854775808

/-- A number without fraction and exponent; a negative one is no integer if it
is zero or below the least integer. -/
def ofInteger (negative : Bool) (significand : Nat) : Number :=
  if !negative then .integer significand
  else if significand = 0 ∨ maxNegated < significand then
    .float (Binary64.ofMagnitude? true (Magnitude.ofRatio? significand 1))
  else .integer (-significand)

end Number

/-- Appends digits to a number as long as it does not exceed `limit`. -/
def gatherDigits (limit : Nat) : Nat → List Char → Nat × List Char
  | value, [] => (value, [])
  | value, c :: rest =>
      let value' := value * 10 + (c.toNat - '0'.toNat)
      if c.isDigit ∧ value' ≤ limit then gatherDigits limit value' rest
      else (value, c :: rest)

/-- The largest significand, `2 ^ 64 - 1`. -/
def maxSignificand : Nat := 18446744073709551615

/-- The largest exponent that is read digit by digit, `2 ^ 31 - 1`. -/
def maxExponent : Nat := 2147483647

def startsWithDigit : List Char → Bool
  | [] => false
  | c :: _ => c.isDigit

variable {μ : Type}

/-- A number with all its parts known, followed by `rest`. -/
def finishNumber (negative : Bool) (significand : Nat) (exponent : Int) (rest : List Char) :
    Except (Fault μ) (Number × List Char) :=
  match Number.magnitudeOf? significand exponent with
  | some magnitude => .ok (.float (.finite negative magnitude), rest)
  | none => fail .numberOutOfRange rest 0

def readExponentDigits (negative down : Bool) (significand : Nat) (start : Int)
    (text : List Char) : Except (Fault μ) (Number × List Char) :=
  match text with
  | [] => fail .endInValue [] 0
  | c :: rest =>
      if !c.isDigit then fail .invalidNumber (c :: rest) 1
      else
        let (value, rest) := gatherDigits maxExponent 0 (c :: rest)
        if startsWithDigit rest then
          if significand ≠ 0 ∧ !down then fail .numberOutOfRange rest.tail 0
          else .ok (.float (.finite negative .zero), rest.dropWhile Char.isDigit)
        else
          finishNumber negative significand (if down then start - value else start + value) rest

def readExponent (negative : Bool) (significand : Nat) (start : Int) (text : List Char) :
    Except (Fault μ) (Number × List Char) :=
  match text with
  | '+' :: rest => readExponentDigits negative false significand start rest
  | '-' :: rest => readExponentDigits negative true significand start rest
  | rest => readExponentDigits negative false significand start rest

/-- Reads an exponent if there is one, and gives the number. -/
def finishFloat (negative : Bool) (significand : Nat) (exponent : Int) (text : List Char) :
    Except (Fault μ) (Number × List Char) :=
  match text with
  | [] => finishNumber negative significand exponent []
  | c :: rest =>
      if c = 'e' ∨ c = 'E' then readExponent negative significand exponent rest
      else finishNumber negative significand exponent (c :: rest)

def readFraction (negative : Bool) (significand : Nat) (exponent : Int) (text : List Char) :
    Except (Fault μ) (Number × List Char) :=
  let (gathered, rest) := gatherDigits maxSignificand significand text
  let used := text.length - rest.length
  if startsWithDigit rest then
    finishFloat negative gathered (exponent - used) (rest.dropWhile Char.isDigit)
  else if used = 0 then
    match rest with
    | [] => fail .endInValue [] 0
    | rest => fail .invalidNumber rest 1
  else finishFloat negative gathered (exponent - used) rest

def finishWhole (negative : Bool) (significand dropped : Nat) (text : List Char) :
    Except (Fault μ) (Number × List Char) :=
  match text with
  | '.' :: rest => readFraction negative significand dropped rest
  | rest =>
      if dropped = 0 ∧ rest.head? ≠ some 'e' ∧ rest.head? ≠ some 'E' then
        .ok (Number.ofInteger negative significand, rest)
      else finishFloat negative significand dropped rest

/-- Reads a number after its sign. -/
def readNumber (negative : Bool) (text : List Char) :
    Except (Fault μ) (Number × List Char) :=
  match text with
  | [] => fail .endInValue [] 0
  | c :: rest =>
      if c = '0' then
        if startsWithDigit rest then fail .invalidNumber rest 1
        else finishWhole negative 0 0 rest
      else if c.isDigit then
        let (significand, rest) := gatherDigits maxSignificand 0 (c :: rest)
        let dropped := rest.takeWhile Char.isDigit
        finishWhole negative significand dropped.length (rest.drop dropped.length)
      else fail .invalidNumber (c :: rest) 1

theorem gatherDigits_length_le (limit value : Nat) (text : List Char) :
    (gatherDigits limit value text).2.length ≤ text.length := by
  induction text generalizing value with
  | nil => exact Nat.le_refl _
  | cons c rest ih =>
      unfold gatherDigits
      dsimp only
      split
      · exact Nat.le_succ_of_le (ih _)
      · exact Nat.le_refl _

theorem digitValue_le_nine {c : Char} (hc : c.isDigit = true) : c.toNat - '0'.toNat ≤ 9 := by
  simp only [Char.isDigit, Bool.and_eq_true, decide_eq_true_eq] at hc
  have hnine : c.toNat ≤ '9'.toNat := hc.2
  have : '9'.toNat - '0'.toNat = 9 := by decide
  omega

theorem gatherDigits_shorter {limit : Nat} {c : Char} (hc : c.isDigit = true)
    (hlimit : 9 ≤ limit) (rest : List Char) :
    (gatherDigits limit 0 (c :: rest)).2.length < (c :: rest).length := by
  have hle : 0 * 10 + (c.toNat - '0'.toNat) ≤ limit := by
    have := digitValue_le_nine hc
    omega
  rw [gatherDigits, if_pos ⟨hc, hle⟩]
  exact Nat.lt_succ_of_le (gatherDigits_length_le _ _ _)

theorem finishNumber_rest {negative : Bool} {significand : Nat} {exponent : Int}
    {text rest : List Char} {n : Number}
    (h : finishNumber (μ := μ) negative significand exponent text = .ok (n, rest)) :
    rest = text := by
  unfold finishNumber at h
  cases hmagnitude : Number.magnitudeOf? significand exponent with
  | some magnitude =>
      rw [hmagnitude] at h
      cases h
      rfl
  | none =>
      rw [hmagnitude] at h
      cases h

theorem readExponentDigits_length_le {negative down : Bool} {significand : Nat} {start : Int}
    {text rest : List Char} {n : Number}
    (h : readExponentDigits (μ := μ) negative down significand start text = .ok (n, rest)) :
    rest.length ≤ text.length := by
  unfold readExponentDigits at h
  split at h
  next => cases h
  next c tail =>
    split at h
    next => cases h
    next =>
      have hgather := gatherDigits_length_le maxExponent 0 (c :: tail)
      dsimp only at h
      split at h
      next =>
        split at h
        next => cases h
        next =>
          cases h
          exact Nat.le_trans (List.dropWhile_sublist Char.isDigit).length_le hgather
      next =>
        rw [finishNumber_rest h]
        exact hgather

theorem readExponent_length_le {negative : Bool} {significand : Nat} {start : Int}
    {text rest : List Char} {n : Number}
    (h : readExponent (μ := μ) negative significand start text = .ok (n, rest)) :
    rest.length ≤ text.length := by
  unfold readExponent at h
  split at h
  next => exact Nat.le_succ_of_le (readExponentDigits_length_le h)
  next => exact Nat.le_succ_of_le (readExponentDigits_length_le h)
  next => exact readExponentDigits_length_le h

theorem finishFloat_length_le {negative : Bool} {significand : Nat} {exponent : Int}
    {text rest : List Char} {n : Number}
    (h : finishFloat (μ := μ) negative significand exponent text = .ok (n, rest)) :
    rest.length ≤ text.length := by
  unfold finishFloat at h
  split at h
  next => exact Nat.le_of_eq (congrArg List.length (finishNumber_rest h))
  next =>
    split at h
    next => exact Nat.le_succ_of_le (readExponent_length_le h)
    next => exact Nat.le_of_eq (congrArg List.length (finishNumber_rest h))

theorem readFraction_length_le {negative : Bool} {significand : Nat} {exponent : Int}
    {text rest : List Char} {n : Number}
    (h : readFraction (μ := μ) negative significand exponent text = .ok (n, rest)) :
    rest.length ≤ text.length := by
  have hgather := gatherDigits_length_le maxSignificand significand text
  unfold readFraction at h
  dsimp only at h
  split at h
  next =>
    have hdrop := Nat.le_trans (finishFloat_length_le h) (List.dropWhile_sublist _).length_le
    exact Nat.le_trans hdrop hgather
  next =>
    split at h
    next => split at h <;> cases h
    next => exact Nat.le_trans (finishFloat_length_le h) hgather

theorem finishWhole_length_le {negative : Bool} {significand dropped : Nat}
    {text rest : List Char} {n : Number}
    (h : finishWhole (μ := μ) negative significand dropped text = .ok (n, rest)) :
    rest.length ≤ text.length := by
  unfold finishWhole at h
  split at h
  next => exact Nat.le_succ_of_le (readFraction_length_le h)
  next =>
    split at h
    next =>
      cases h
      exact Nat.le_refl _
    next => exact finishFloat_length_le h

theorem readNumber_shorter {negative : Bool} {text rest : List Char} {n : Number}
    (h : readNumber (μ := μ) negative text = .ok (n, rest)) : rest.length < text.length := by
  unfold readNumber at h
  split at h
  next => cases h
  next c tail =>
    split at h
    next =>
      split at h
      next => cases h
      next => exact Nat.lt_succ_of_le (finishWhole_length_le h)
    next =>
      split at h
      next hdigit =>
        have hgather := gatherDigits_shorter hdigit (by decide : 9 ≤ maxSignificand) tail
        cases hpair : gatherDigits maxSignificand 0 (c :: tail) with
        | mk significand after =>
            rw [hpair] at h hgather
            have hrest := finishWhole_length_le h
            simp only [List.length_drop] at hrest
            dsimp only at hgather
            omega
      next => cases h

end Json
end FilterLang
