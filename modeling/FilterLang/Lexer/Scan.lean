import FilterLang.Lexer.Error
import FilterLang.Text.Quoted
import FilterLang.Token.Basic

/-!
# Scanning one token

A scan looks at a text only from its start.  It skips blanks and takes the
longest lexeme there: a quoted form, a word, a time, a number or a symbol.  A
digit run with the shape of a time is a time or an error, never a number.

A scan that fails says which text is at fault, by the part of the input that
begins there, and where reading stopped.  A successful scan of anything but the
end consumes at least one character.
-/

namespace FilterLang

-- Powers of natural numbers are `Nat.pow`, whatever else is in scope.
attribute [local instance (high)] instPowNat

/-- Why a scan failed, and the text from the reported character on. -/
structure Misread where
  cause : LexCause
  place : List Char

structure Scan where
  result : Except Misread Token
  /-- The text from where reading stopped. -/
  rest : List Char

namespace Scan

def misread (cause : LexCause) (place rest : List Char) : Scan :=
  ⟨.error ⟨cause, place⟩, rest⟩

/-- A quoted name or string; `text` begins after the opening `quote`. -/
def quoted (quote : Char) (text : List Char) : Scan :=
  let isIdent := quote = Text.Quoted.identQuote
  match Text.Quoted.readBody quote text with
  | .closed value rest =>
      let value := String.ofList value
      ⟨.ok (if isIdent then .ident value else .string value), rest⟩
  | .invalidEscape sequence place rest =>
      misread (.invalidEscape (String.ofList sequence)) place rest
  | .unclosed =>
      misread (if isIdent then .unterminatedIdent else .unterminatedString) (quote :: text) []

def wordToken (word : List Char) : Token :=
  match Keyword.ofWord? word with
  | some k => .keyword k
  | none => .ident (String.ofList word)

def word (text : List Char) : Scan :=
  ⟨.ok (wordToken (text.takeWhile Text.isWordChar)), text.dropWhile Text.isWordChar⟩

/-- Digits, and a point with more digits if a digit follows the point. -/
def numberLexeme (text : List Char) : List Char × List Char :=
  let whole := text.takeWhile Char.isDigit
  match text.dropWhile Char.isDigit with
  | '.' :: c :: rest =>
      if c.isDigit then
        (whole ++ '.' :: (c :: rest).takeWhile Char.isDigit, (c :: rest).dropWhile Char.isDigit)
      else (whole, '.' :: c :: rest)
  | rest => (whole, rest)

def number (text : List Char) : Scan :=
  let (lexeme, rest) := numberLexeme text
  match Binary64.ofText? lexeme with
  | some value => ⟨.ok (.number value), rest⟩
  | none => misread (.invalidNumber (String.ofList lexeme)) text rest

/-- Splits off a start of the text that has a shape, where `d` stands for any digit. -/
def splitShape : List Char → List Char → Option (List Char × List Char)
  | [], text => some ([], text)
  | _ :: _, [] => none
  | s :: shape, c :: text =>
      if (s = 'd' ∧ c.isDigit) ∨ (s ≠ 'd' ∧ c = s) then
        (splitShape shape text).map fun (lexeme, rest) => (c :: lexeme, rest)
      else none

/-- The shape of a time, its fraction aside. -/
def timeShape : List Char :=
  "dddd-dd-dd dd:dd:dd".toList

/-- A text with the shape of a time, and up to nine digits of a fraction. -/
def timeLexeme? (text : List Char) : Option (List Char × List Char) :=
  (splitShape timeShape text).map fun (lexeme, rest) =>
    match rest with
    | '.' :: fraction =>
        let digits := (fraction.takeWhile Char.isDigit).take 9
        if digits.isEmpty then (lexeme, rest)
        else (lexeme ++ '.' :: digits, fraction.drop digits.length)
    | _ => (lexeme, rest)

/-- The number written in `count` digits from a place of a lexeme on. -/
def fieldAt (lexeme : List Char) (place count : Nat) : Nat :=
  Nat.ofDigitChars 10 ((lexeme.drop place).take count) 0

/-- The instant that a lexeme with the shape of a time denotes, if its fields
are a real date and time of day. -/
def instantOf? (lexeme : List Char) : Option Calendar.Instant := do
  let date ← Calendar.Date.of? (fieldAt lexeme 0 4) (fieldAt lexeme 5 2) (fieldAt lexeme 8 2)
  let hour := fieldAt lexeme 11 2
  let minute := fieldAt lexeme 14 2
  let second := fieldAt lexeme 17 2
  let fraction := lexeme.drop 20
  let nanos := Nat.ofDigitChars 10 fraction 0 * 10 ^ (9 - fraction.length)
  if Calendar.Civil.clockInRange hour minute second then
    Calendar.Instant.ofCivil? ⟨date, hour, minute, second, nanos⟩ 0
  else none

def timeOrNumber (text : List Char) : Scan :=
  match timeLexeme? text with
  | some (lexeme, rest) =>
      match instantOf? lexeme with
      | some instant => ⟨.ok (.time instant), rest⟩
      | none => misread (.invalidTime (String.ofList lexeme)) text text
  | none => number text

/-- The longest symbol at the start of the text `c :: rest`. -/
def leadingSymbol? (c : Char) (rest : List Char) : Option (Symbol × List Char) :=
  let single := (Symbol.ofText? [c]).map fun s => (s, rest)
  match rest with
  | [] => single
  | d :: rest' =>
      match Symbol.ofText? [c, d] with
      | some s => some (s, rest')
      | none => single

def symbol (c : Char) (rest : List Char) : Scan :=
  match leadingSymbol? c rest with
  | some (s, rest) => ⟨.ok (.symbol s), rest⟩
  | none => misread (.unexpectedChar c) (c :: rest) (c :: rest)

/-- The token at the start of a text that begins with no blank. -/
def lexeme : List Char → Scan
  | [] => ⟨.ok .endOfInput, []⟩
  | c :: text =>
      if c = Text.Quoted.identQuote ∨ c = Text.Quoted.stringQuote then quoted c text
      else if Text.isWordStart c then word (c :: text)
      else if c.isDigit then timeOrNumber (c :: text)
      else symbol c text

/-- The next token of a text; at the end of the text, `endOfInput`. -/
def next (text : List Char) : Scan :=
  lexeme (text.dropWhile Text.isBlank)

theorem quoted_shorter {quote : Char} {text : List Char} {t : Token}
    (h : (quoted quote text).result = .ok t) :
    (quoted quote text).rest.length < text.length := by
  unfold quoted at h ⊢
  cases hbody : Text.Quoted.readBody quote text with
  | closed value rest => exact Text.Quoted.readBody_shorter hbody
  | invalidEscape => simp [hbody, misread] at h
  | unclosed => simp [hbody, misread] at h

theorem word_shorter {c : Char} (hc : Text.isWordStart c = true) (text : List Char) :
    (word (c :: text)).rest.length < (c :: text).length := by
  have hdrop : (text.dropWhile Text.isWordChar).length ≤ text.length :=
    (List.dropWhile_sublist _).length_le
  simp only [word, List.dropWhile_cons, Text.isWordChar_of_isWordStart hc, if_true,
    List.length_cons]
  omega

theorem numberLexeme_shorter {c : Char} (hc : c.isDigit = true) (text : List Char) :
    (numberLexeme (c :: text)).2.length < (c :: text).length := by
  have hdrop : ∀ rest : List Char, (rest.dropWhile Char.isDigit).length ≤ rest.length :=
    fun rest => (List.dropWhile_sublist _).length_le
  have hwhole := hdrop text
  unfold numberLexeme
  simp only [List.dropWhile_cons, hc, if_true, List.length_cons]
  split
  next d rest hrest =>
    have hfraction := hdrop rest
    rw [hrest, List.length_cons, List.length_cons] at hwhole
    split
    next =>
      dsimp only
      omega
    next =>
      simp only [List.length_cons]
      omega
  next =>
    dsimp only
    omega

theorem number_shorter {c : Char} (hc : c.isDigit = true) {text : List Char} {t : Token}
    (h : (number (c :: text)).result = .ok t) :
    (number (c :: text)).rest.length < (c :: text).length := by
  have hlexeme := numberLexeme_shorter hc text
  unfold number at h ⊢
  cases hpair : numberLexeme (c :: text) with
  | mk lexeme rest =>
      rw [hpair] at hlexeme
      cases hvalue : Binary64.ofText? lexeme with
      | some value => simpa [hpair, hvalue] using hlexeme
      | none => simp [hpair, hvalue, misread] at h

theorem splitShape_length {shape text lexeme rest : List Char}
    (h : splitShape shape text = some (lexeme, rest)) :
    rest.length + shape.length = text.length := by
  fun_induction splitShape shape text generalizing lexeme with
  | case1 text =>
      cases h
      rfl
  | case2 => cases h
  | case3 s shape c text hmatch ih =>
      obtain ⟨⟨lexeme', rest'⟩, hsplit, heq⟩ := Option.map_eq_some_iff.1 h
      cases heq
      have hrest := ih hsplit
      simp only [List.length_cons]
      omega
  | case4 => cases h

theorem timeLexeme?_shorter {text lexeme rest : List Char}
    (h : timeLexeme? text = some (lexeme, rest)) : rest.length < text.length := by
  obtain ⟨⟨clock, after⟩, hsplit, heq⟩ := Option.map_eq_some_iff.1 h
  have hlength := splitShape_length hsplit
  have hshape : 0 < timeShape.length := by decide
  dsimp only at heq
  split at heq
  next fraction =>
    split at heq
    next =>
      cases heq
      omega
    next =>
      cases heq
      simp only [List.length_drop, List.length_cons] at hlength ⊢
      omega
  next =>
    cases heq
    omega

theorem timeOrNumber_shorter {c : Char} (hc : c.isDigit = true) {text : List Char} {t : Token}
    (h : (timeOrNumber (c :: text)).result = .ok t) :
    (timeOrNumber (c :: text)).rest.length < (c :: text).length := by
  unfold timeOrNumber at h ⊢
  cases htime : timeLexeme? (c :: text) with
  | some parts =>
      obtain ⟨lexeme, rest⟩ := parts
      cases hinstant : instantOf? lexeme with
      | some instant => simpa [hinstant] using timeLexeme?_shorter htime
      | none => simp [htime, hinstant, misread] at h
  | none =>
      simp only [htime] at h ⊢
      exact number_shorter hc h

theorem leadingSymbol?_length {c : Char} {rest rest' : List Char} {s : Symbol}
    (h : leadingSymbol? c rest = some (s, rest')) : rest'.length ≤ rest.length := by
  have hsingle : ∀ {text : List Char}, (Symbol.ofText? [c]).map (fun s => (s, text)) =
      some (s, rest') → rest'.length ≤ text.length := by
    intro text hmap
    obtain ⟨s', -, heq⟩ := Option.map_eq_some_iff.1 hmap
    cases heq
    exact Nat.le_refl _
  unfold leadingSymbol? at h
  cases rest with
  | nil => exact hsingle h
  | cons d rest =>
      dsimp only at h
      split at h
      next =>
        cases h
        exact Nat.le_succ _
      next => exact hsingle h

theorem symbol_shorter {c : Char} {rest : List Char} {t : Token}
    (h : (symbol c rest).result = .ok t) : (symbol c rest).rest.length ≤ rest.length := by
  unfold symbol at h ⊢
  cases hsymbol : leadingSymbol? c rest with
  | some pair => exact leadingSymbol?_length hsymbol
  | none => simp [hsymbol, misread] at h

theorem lexeme_shorter {text : List Char} {t : Token}
    (h : (lexeme text).result = .ok t) (hend : t ≠ .endOfInput) :
    (lexeme text).rest.length < text.length := by
  cases text with
  | nil =>
      cases h
      exact absurd rfl hend
  | cons c text =>
      unfold lexeme at h ⊢
      dsimp only at h ⊢
      split at h
      next hquote =>
        rw [if_pos hquote]
        exact Nat.lt_succ_of_lt (quoted_shorter h)
      next hquote =>
        rw [if_neg hquote]
        split at h
        next hword =>
          rw [if_pos hword]
          exact word_shorter hword text
        next hword =>
          rw [if_neg hword]
          split at h
          next hdigit =>
            rw [if_pos hdigit]
            exact timeOrNumber_shorter hdigit h
          next hdigit =>
            rw [if_neg hdigit]
            exact Nat.lt_succ_of_le (symbol_shorter h)

/-- A token other than the end takes at least one character. -/
theorem next_shorter {text : List Char} {t : Token}
    (h : (next text).result = .ok t) (hend : t ≠ .endOfInput) :
    (next text).rest.length < text.length :=
  Nat.lt_of_lt_of_le (lexeme_shorter h hend) (List.dropWhile_sublist _).length_le

end Scan
end FilterLang
