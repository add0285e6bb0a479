import FilterLang.Text.Characters

/-!
# Quoted text

Names stand between double quotes and string values between single quotes.
Inside either form a backslash escapes the active quote, the backslash and the
control characters, so a quoted text is one line of printable characters.

Reading accepts a little more than writing produces: both quotes may be
escaped in either form, and `\u` takes one to six hexadecimal digits.  The
first backslash that starts no escape stops the reading, as does the end of
the text.
-/

namespace FilterLang
namespace Text
namespace Quoted

def identQuote : Char := '"'

def stringQuote : Char := '\''

/-- How a character stands between quotes `q`. -/
def writeChar (q c : Char) : List Char :=
  if c = q ∨ c = '\\' then ['\\', c]
  else if c = '\n' then ['\\', 'n']
  else if c = '\r' then ['\\', 'r']
  else if c = '\t' then ['\\', 't']
  else if isControl c then
    ['\\', 'u', '{'] ++ padLeft 4 (Nat.toDigits 16 c.toNat) ++ ['}']
  else [c]

def write (q : Char) (text : List Char) : List Char :=
  q :: text.flatMap (writeChar q) ++ [q]

/-- What a backslash turns out to start, judged by the text after it. -/
inductive Escape where
  /-- The text ends at the backslash. -/
  | ended
  | decoded (c : Char) (rest : List Char)
  /-- No escape: the characters found wanting, and the text from the one at
  which reading stopped. -/
  | invalid (sequence rest : List Char)

/-- The longest run of at most six hexadecimal digits at the start. -/
def hexRun (text : List Char) : List Char :=
  (text.takeWhile fun c => (hexValue? c).isSome).take 6

/-- The character whose code is written with these hexadecimal digits. -/
def charOfHex? (digits : List Char) : Option Char := do
  if digits.isEmpty then none
  let code ← hexNumber? digits
  if code.isValidChar then some (Char.ofNat code) else none

def readCode : List Char → Escape
  | '{' :: text =>
      let digits := hexRun text
      match text.drop digits.length with
      | '}' :: rest =>
          match charOfHex? digits with
          | some c => .decoded c rest
          | none => .invalid ('u' :: '{' :: digits ++ ['}']) ('}' :: rest)
      | rest => .invalid ('u' :: digits) rest
  | text => .invalid ['u'] text

def readEscape : List Char → Escape
  | [] => .ended
  | c :: rest =>
      if c = 'n' then .decoded '\n' rest
      else if c = 't' then .decoded '\t' rest
      else if c = 'r' then .decoded '\r' rest
      else if c = '"' ∨ c = '\'' ∨ c = '\\' then .decoded c rest
      else if c = 'u' then readCode rest
      else .invalid [c] (c :: rest)

theorem readCode_shorter {text rest : List Char} {c : Char}
    (h : readCode text = .decoded c rest) : rest.length < text.length := by
  unfold readCode at h
  split at h
  next text' =>
    dsimp only at h
    split at h
    next rest' hdrop =>
      split at h
      next =>
        cases h
        have hlength := congrArg List.length hdrop
        simp only [List.length_drop, List.length_cons] at hlength ⊢
        omega
      next => cases h
    next => cases h
  next => cases h

theorem readEscape_shorter {text rest : List Char} {c : Char}
    (h : readEscape text = .decoded c rest) : rest.length < text.length := by
  cases text with
  | nil => cases h
  | cons d text =>
      simp only [readEscape] at h
      -- The escapes of one character come first.
      iterate 4
        split at h
        next =>
          cases h
          exact Nat.lt_succ_self _
      split at h
      next => exact Nat.lt_succ_of_lt (readCode_shorter h)
      next => cases h

/-- The text from an opening quote on, once read. -/
inductive Reading where
  /-- The decoded characters and the text after the closing quote. -/
  | closed (value rest : List Char)
  /-- The characters found wanting behind a backslash, the text from that
  backslash on, and the text from where reading stopped. -/
  | invalidEscape (sequence place rest : List Char)
  /-- The text ends before the closing quote. -/
  | unclosed

/-- A character decoded in front of what the rest gives. -/
def Reading.push (c : Char) : Reading → Reading
  | .closed value rest => .closed (c :: value) rest
  | other => other

/-- Reads up to the closing quote `q`, from the character after the opening one. -/
def readBody (q : Char) : List Char → Reading
  | [] => .unclosed
  | c :: text =>
      if c = q then .closed [] text
      else if c = '\\' then
        match h : readEscape text with
        | .ended => .unclosed
        | .decoded d rest =>
            have := readEscape_shorter h
            (readBody q rest).push d
        | .invalid sequence rest => .invalidEscape sequence (c :: text) rest
      else (readBody q text).push c
  termination_by text => text.length
  decreasing_by
    · simp only [List.length_cons]; omega
    · simp

theorem Reading.push_eq_closed {c : Char} {reading : Reading} {value rest : List Char}
    (h : reading.push c = .closed value rest) :
    ∃ value', reading = .closed value' rest ∧ value = c :: value' := by
  cases reading with
  | closed value' rest' =>
      cases h
      exact ⟨value', rfl, rfl⟩
  | invalidEscape => cases h
  | unclosed => cases h

theorem readBody_shorter {q : Char} {text value rest : List Char}
    (h : readBody q text = .closed value rest) : rest.length < text.length := by
  fun_induction readBody q text generalizing value with
  | case1 => cases h
  | case2 text =>
      cases h
      exact Nat.lt_succ_self _
  | case3 => cases h
  | case4 text d rest' hescape hshorter hquote ih =>
      obtain ⟨value', hbody, -⟩ := Reading.push_eq_closed h
      exact Nat.lt_succ_of_lt (Nat.lt_trans (ih hbody) hshorter)
  | case5 => cases h
  | case6 c text hquote hbackslash ih =>
      obtain ⟨value', hbody, -⟩ := Reading.push_eq_closed h
      exact Nat.lt_succ_of_lt (ih hbody)

end Quoted
end Text
end FilterLang
