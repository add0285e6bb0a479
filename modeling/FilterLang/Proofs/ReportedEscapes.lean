import FilterLang.Proofs.ErrorPositions

/-!
# What is reported of an escape

The error for a backslash that starts no escape shows the characters found wanting there.
These are the characters that stand behind the backslash, with one exception: of a code
whose digits no brace closes the digits are shown without the brace that opens it.

So what is reported stands in the text, behind the backslash at the reported position,
exactly if no code with a digit is left open there.
-/

namespace FilterLang

namespace Text
namespace Quoted

/-- A place with a code whose digits, at most six, no brace closes: behind them the text
ends, or another character stands there, which may be a seventh digit. -/
inductive LeftOpen : List Char → List Char → Prop
  | code {digits more : List Char} (hne : digits ≠ [])
      (hhex : ∀ c ∈ digits, (hexValue? c).isSome) (hlength : digits.length ≤ 6)
      (hbrace : ∀ c ∈ more.head?, c ≠ '}')
      (hlongest : digits.length = 6 ∨ ∀ c ∈ more.head?, hexValue? c = none) :
      LeftOpen ('\\' :: 'u' :: '{' :: (digits ++ more)) digits

theorem LeftOpen.readEscape {more digits : List Char} (h : LeftOpen ('\\' :: more) digits) :
    ∃ rest, readEscape more = .invalid ('u' :: digits) rest := by
  generalize hplace : '\\' :: more = place at h
  cases h with
  | @code digits tail hne hhex hlength hbrace hlongest =>
      cases hplace
      refine ⟨tail, ?_⟩
      rw [readEscape_code]
      unfold readCode
      simp only [hexRun_digits hhex hlength hlongest, List.drop_left]
      split
      next rest => exact absurd rfl (hbrace '}' rfl)
      next => rfl

/-- The brace that opens a code stands in front of its digits. -/
theorem LeftOpen.not_prefix {place digits : List Char} (h : LeftOpen place digits) :
    ¬ '\\' :: 'u' :: digits <+: place := by
  cases h with
  | code hne hhex =>
      intro hbegins
      obtain ⟨d, tail, rfl⟩ := List.exists_cons_of_ne_nil hne
      simp only [List.cons_prefix_cons] at hbegins
      have hdigit := hhex d List.mem_cons_self
      rw [hbegins.2.2.1] at hdigit
      contradiction

theorem prefix_or_leftOpen_of_readCode {text sequence rest : List Char}
    (h : readCode text = .invalid sequence rest) :
    sequence <+: 'u' :: text ∨ ∃ digits, LeftOpen ('\\' :: 'u' :: text) digits := by
  unfold readCode at h
  split at h
  next body =>
    have hbody := hexRun_append_drop body
    have hlongest : (hexRun body).length = 6 ∨
        ∀ c ∈ (body.drop (hexRun body).length).head?, hexValue? c = none :=
      or_iff_not_imp_left.2 hexValue?_behind_hexRun
    dsimp only at h
    split at h
    next rest' hdrop =>
      rw [hdrop] at hbody
      split at h
      next => cases h
      next =>
        cases h
        refine Or.inl ⟨rest', ?_⟩
        simp [hbody]
    next hdrop =>
      cases h
      by_cases hnil : hexRun body = []
      · refine Or.inl ⟨'{' :: body, ?_⟩
        rw [hnil]
        rfl
      · have hbrace : ∀ c ∈ (body.drop (hexRun body).length).head?, c ≠ '}' := by
          rintro c hc rfl
          obtain ⟨tail, htail⟩ := List.head?_eq_some_iff.1 hc
          exact hdrop tail htail
        have hopen := LeftOpen.code hnil (fun c hc => isSome_hexValue?_of_mem_hexRun hc)
          (length_hexRun_le body) hbrace hlongest
        rw [hbody] at hopen
        exact Or.inr ⟨_, hopen⟩
  next =>
    cases h
    exact Or.inl ⟨text, rfl⟩

/-- A sequence that is refused stands in the text, if no code is left open there. -/
theorem prefix_or_leftOpen {more sequence rest : List Char}
    (h : readEscape more = .invalid sequence rest) :
    sequence <+: more ∨ ∃ digits, LeftOpen ('\\' :: more) digits := by
  cases more with
  | nil => cases h
  | cons c text =>
      simp only [readEscape] at h
      iterate 4
        split at h
        next => cases h
      split at h
      next hc =>
        rw [hc]
        exact prefix_or_leftOpen_of_readCode h
      next =>
        cases h
        exact Or.inl ⟨text, rfl⟩

end Quoted
end Text

open Text.Quoted (LeftOpen)

/-- The sequence of an error is the one that the text behind the backslash is refused for. -/
theorem Lexer.exists_readEscape {lexer : Lexer} {sequence : String} {p : Position}
    (h : lexer.nextToken.1 = .error ⟨.invalidEscape sequence, p⟩) :
    ∃ i more rest, i < lexer.source.length ∧ p = Position.after (lexer.source.take i) ∧
      lexer.source.drop i = '\\' :: more ∧
      Text.Quoted.readEscape more = .invalid sequence.toList rest := by
  obtain ⟨hstart, i, hblames, hposition⟩ := blames_of_error h
  have hi := hblames.lt hstart
  dsimp only at hblames hposition
  cases hblames with
  | @escape q items value more _ _ hq hdrop hitems hmore =>
      obtain ⟨refused, rest, hread⟩ := hmore.readEscape
      have hrest : Lexer.rest ⟨lexer.source, lexer.start⟩ = q :: (items ++ '\\' :: more) := hdrop
      have herror := nextToken_invalid hq hitems hread hrest
      rw [nextToken_at_start, h] at herror
      obtain rfl : sequence = String.ofList refused := by
        cases herror
        rfl
      refine ⟨_, more, rest, hi, hposition, drop_behind_items hrest, ?_⟩
      rw [hread, String.toList_ofList]

/-- The sequence of an error stands in the text, behind the backslash at its position,
exactly if no code is left open there.  Of such a code the digits are reported, without
their brace. -/
theorem reported_escapes_stand_in_the_text {text sequence : String} {p : Position}
    (h : tokenize text = .error ⟨.invalidEscape sequence, p⟩) :
    ∃ i, (i < text.length ∧ p.Behind (text.toList.take i) ∧
        ∀ i' < text.length, p.Behind (text.toList.take i') → i' = i) ∧
      ('\\' :: sequence.toList <+: text.toList.drop i ↔
        ∀ digits, ¬ LeftOpen (text.toList.drop i) digits) ∧
      ∀ digits, LeftOpen (text.toList.drop i) digits →
        sequence.toList = 'u' :: digits := by
  obtain ⟨tokens, stuck, -, hsource, -, -, herror⟩ := Lexer.exists_stuck h
  obtain ⟨i, more, rest, hi, rfl, hplace, hread⟩ := Lexer.exists_readEscape herror
  have hbehind := Position.behind_after (stuck.source.take i)
  have hdigits : ∀ digits, LeftOpen (stuck.source.drop i) digits →
      sequence.toList = 'u' :: digits := by
    intro digits hopen
    rw [hplace] at hopen
    obtain ⟨rest', hread'⟩ := hopen.readEscape
    rw [hread] at hread'
    exact (Text.Quoted.Escape.invalid.inj hread').1
  rw [← String.length_toList, ← hsource]
  refine ⟨i, ⟨hi, hbehind, ?_⟩, ?_, hdigits⟩
  · intro i' hi' hbehind'
    exact hbehind'.index_unique hbehind hi' hi
  · constructor
    · intro hbegins digits hopen
      rw [hdigits digits hopen] at hbegins
      exact hopen.not_prefix hbegins
    · intro hclosed
      rw [hplace] at hclosed ⊢
      rcases Text.Quoted.prefix_or_leftOpen hread with hbegins | ⟨digits, hopen⟩
      · exact List.cons_prefix_cons.2 ⟨rfl, hbegins⟩
      · exact absurd hopen (hclosed digits)

/-- A surrogate in a string on the second line: its code is closed, and shown as it is. -/
theorem reported_escapes_stand_in_the_text_at_a_surrogate :
    tokenize "ok\n '\\u\x7bD800\x7d'" = .error ⟨.invalidEscape "u\x7bD800\x7d", ⟨2, 3⟩⟩ ∧
      ∃ i, (i < "ok\n '\\u\x7bD800\x7d'".length ∧
          (⟨2, 3⟩ : Position).Behind ("ok\n '\\u\x7bD800\x7d'".toList.take i) ∧
          ∀ i' < "ok\n '\\u\x7bD800\x7d'".length,
            (⟨2, 3⟩ : Position).Behind ("ok\n '\\u\x7bD800\x7d'".toList.take i') → i' = i) ∧
        ('\\' :: "u\x7bD800\x7d".toList <+: "ok\n '\\u\x7bD800\x7d'".toList.drop i ↔
          ∀ digits, ¬ LeftOpen ("ok\n '\\u\x7bD800\x7d'".toList.drop i) digits) ∧
        ∀ digits, LeftOpen ("ok\n '\\u\x7bD800\x7d'".toList.drop i) digits →
          "u\x7bD800\x7d".toList = 'u' :: digits := by
  have herror : tokenize "ok\n '\\u\x7bD800\x7d'" =
      .error ⟨.invalidEscape "u\x7bD800\x7d", ⟨2, 3⟩⟩ := by
    decide +kernel
  exact ⟨herror, reported_escapes_stand_in_the_text herror⟩

/-- A code that the closing quote cuts short: the sequence shown has no brace, and does not
stand in the text at its position. -/
theorem open_code_is_reported_without_its_brace :
    tokenize "'\\u\x7b12'" = .error ⟨.invalidEscape "u12", ⟨1, 2⟩⟩ ∧
      ¬ ∃ i < "'\\u\x7b12'".length, (⟨1, 2⟩ : Position).Behind ("'\\u\x7b12'".toList.take i) ∧
        '\\' :: "u12".toList <+: "'\\u\x7b12'".toList.drop i := by
  constructor
  · decide +kernel
  · rintro ⟨i, hi, hbehind, hbegins⟩
    have hsecond : (⟨1, 2⟩ : Position).Behind ("'\\u\x7b12'".toList.take 1) := ⟨rfl, rfl⟩
    obtain rfl := hbehind.index_unique hsecond hi (by decide)
    exact absurd hbegins (by decide)

end FilterLang
