import FilterLang.Json.Fault
import FilterLang.Text.Characters

/-!
# Strings in JSON texts

Writing escapes the double quote, the backslash and the controls below the
space; reading knows all escapes of the format, among them pairs of `\u` that
stand for one character beyond U+FFFF.
-/

namespace FilterLang
namespace Json

def writeChar (c : Char) : List Char :=
  if c = '"' ∨ c = '\\' then ['\\', c]
  else if c = '\x08' then ['\\', 'b']
  else if c = '\x0c' then ['\\', 'f']
  else if c = '\n' then ['\\', 'n']
  else if c = '\r' then ['\\', 'r']
  else if c = '\t' then ['\\', 't']
  else if c.toNat < 0x20 then
    ['\\', 'u'] ++ Text.padLeft 4 (Nat.toDigits 16 c.toNat)
  else [c]

def writeString (text : List Char) : List Char :=
  '"' :: text.flatMap writeChar ++ ['"']

variable {μ : Type}

def readFourHex (text : List Char) : Except (Fault μ) (Nat × List Char) :=
  match text with
  | a :: b :: c :: d :: rest =>
      match Text.hexNumber? [a, b, c, d] with
      | some n => .ok (n, rest)
      | none => fail .invalidEscape text 4
  | short =>
      if (bytes short).length < 4 then fail .endInString [] 0
      else fail .invalidEscape short 4

def isLeadingSurrogate (n : Nat) : Bool :=
  0xD800 ≤ n && n ≤ 0xDBFF

def isTrailingSurrogate (n : Nat) : Bool :=
  0xDC00 ≤ n && n ≤ 0xDFFF

/-- The character that a pair of surrogates stands for. -/
def ofSurrogates (leading trailing : Nat) : Char :=
  Char.ofNat (0x10000 + (leading - 0xD800) * 0x400 + (trailing - 0xDC00))

/-- Reads the second escape of a pair whose first stands for `leading`. -/
def readTrailing (leading : Nat) (text : List Char) : Except (Fault μ) (Char × List Char) :=
  match text with
  | [] => fail .endInString [] 0
  | '\\' :: [] => fail .endInString [] 0
  | '\\' :: 'u' :: rest => do
      let (trailing, rest) ← readFourHex rest
      if isTrailingSurrogate trailing then return (ofSurrogates leading trailing, rest)
      else fail .loneSurrogate rest 0
  | '\\' :: rest => fail .endInSurrogatePair rest 1
  | rest => fail .endInSurrogatePair rest 1

def readUnicode (text : List Char) : Except (Fault μ) (Char × List Char) := do
  let (code, rest) ← readFourHex text
  if isTrailingSurrogate code then fail .loneSurrogate rest 0
  else if isLeadingSurrogate code then readTrailing code rest
  else return (Char.ofNat code, rest)

def readEscape (text : List Char) : Except (Fault μ) (Char × List Char) :=
  match text with
  | [] => fail .endInString [] 0
  | c :: rest =>
      if c = '"' ∨ c = '\\' ∨ c = '/' then .ok (c, rest)
      else if c = 'b' then .ok ('\x08', rest)
      else if c = 'f' then .ok ('\x0c', rest)
      else if c = 'n' then .ok ('\n', rest)
      else if c = 'r' then .ok ('\r', rest)
      else if c = 't' then .ok ('\t', rest)
      else if c = 'u' then readUnicode rest
      else fail .invalidEscape (c :: rest) 1

theorem readFourHex_length_le {text rest : List Char} {n : Nat}
    (h : readFourHex (μ := μ) text = .ok (n, rest)) : rest.length ≤ text.length := by
  unfold readFourHex at h
  split at h
  next =>
    split at h
    next =>
      cases h
      simp only [List.length_cons]
      omega
    next => cases h
  next => split at h <;> cases h

theorem readTrailing_length_le {leading : Nat} {text rest : List Char} {c : Char}
    (h : readTrailing (μ := μ) leading text = .ok (c, rest)) : rest.length ≤ text.length := by
  unfold readTrailing at h
  split at h
  next => cases h
  next => cases h
  next tail =>
    cases hfour : readFourHex (μ := μ) tail with
    | error f =>
        rw [hfour] at h
        cases h
    | ok pair =>
        have hle := readFourHex_length_le hfour
        simp only [hfour, bind, Except.bind] at h
        split at h
        next =>
          simp only [pure, Except.pure, Except.ok.injEq, Prod.mk.injEq] at h
          rw [← h.2]
          simp only [List.length_cons]
          omega
        next => cases h
  next => cases h
  next => cases h

theorem readUnicode_length_le {text rest : List Char} {c : Char}
    (h : readUnicode (μ := μ) text = .ok (c, rest)) : rest.length ≤ text.length := by
  unfold readUnicode at h
  cases hfour : readFourHex (μ := μ) text with
  | error f =>
      rw [hfour] at h
      cases h
  | ok pair =>
      have hle := readFourHex_length_le hfour
      simp only [hfour, bind, Except.bind] at h
      split at h
      next => cases h
      split at h
      next => exact Nat.le_trans (readTrailing_length_le h) hle
      next =>
        cases h
        exact hle

theorem readEscape_shorter {text rest : List Char} {c : Char}
    (h : readEscape (μ := μ) text = .ok (c, rest)) : rest.length < text.length := by
  unfold readEscape at h
  split at h
  next => cases h
  next d tail =>
    -- The six escapes of one letter come first.
    iterate 6
      split at h
      next =>
        cases h
        exact Nat.lt_succ_self _
    split at h
    next => exact Nat.lt_succ_of_le (readUnicode_length_le h)
    next => cases h

/-- Reads a string from the character after its opening quote. -/
def readString : List Char → Except (Fault μ) (List Char × List Char)
  | [] => fail .endInString [] 0
  | c :: text =>
      if c = '"' then .ok ([], text)
      else if c = '\\' then
        match h : readEscape text with
        | .error f => .error f
        | .ok (d, rest) =>
            have := readEscape_shorter h
            (readString rest).map fun (value, rest) => (d :: value, rest)
      else if c.toNat < 0x20 then fail .controlCharacter text 0
      else (readString text).map fun (value, rest) => (c :: value, rest)
  termination_by text => text.length

theorem map_eq_ok {ε α β : Type} {f : α → β} {x : Except ε α} {b : β}
    (h : x.map f = .ok b) : ∃ a, x = .ok a ∧ f a = b := by
  cases x with
  | error e => cases h
  | ok a =>
      cases h
      exact ⟨a, rfl, rfl⟩

theorem readString_shorter {text value rest : List Char}
    (h : readString (μ := μ) text = .ok (value, rest)) : rest.length < text.length := by
  fun_induction readString (μ := μ) text generalizing value with
  | case1 => cases h
  | case2 text =>
      cases h
      exact Nat.lt_succ_self _
  | case3 => cases h
  | case4 text d after _ hshorter _ ih =>
      obtain ⟨⟨value', rest'⟩, hrest, heq⟩ := map_eq_ok h
      cases heq
      exact Nat.lt_succ_of_lt (Nat.lt_trans (ih hrest) hshorter)
  | case5 => cases h
  | case6 c text _ _ _ ih =>
      obtain ⟨⟨value', rest'⟩, hrest, heq⟩ := map_eq_ok h
      cases heq
      exact Nat.lt_succ_of_lt (ih hrest)

end Json
end FilterLang
