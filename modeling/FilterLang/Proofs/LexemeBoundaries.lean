import FilterLang.Proofs.QuotedTokens

/-!
# Where lexemes end

A character that can stand in no word, number, time or second half of a symbol
ends every lexeme that is not quoted.  A scan in front of such a character gives
the same token, whatever stands behind it, and leaves the same rest with that
text appended.  The part that a scan takes is a front of its text, and outside
quoted forms it holds no quote.
-/

namespace FilterLang

open Text.Quoted (IsQuote identQuote stringQuote)

-- What holds of each character of a list is decided along the list.
attribute [local instance (high)] List.decidableBAll

namespace Text

/-- Characters that end every lexeme outside quotes. -/
def BreaksLexemes (c : Char) : Prop :=
  isWordChar c = false ∧ c ∉ ['.', '-', ' ', ':', '=', '~']

theorem BreaksLexemes.not_isDigit {q : Char} (hq : BreaksLexemes q) : q.isDigit = false := by
  cases hdigit : q.isDigit with
  | false => rfl
  | true => simp [BreaksLexemes, isWordChar, Char.isAlphanum, hdigit] at hq

theorem breaksLexemes_of_isQuote {q : Char} (hq : IsQuote q) : BreaksLexemes q := by
  rcases hq with rfl | rfl
  · exact ⟨by decide, by decide⟩
  · exact ⟨by decide, by decide⟩

theorem takeWhile_append_cons {p : Char → Bool} {q : Char} (hq : p q = false)
    (text more : List Char) :
    (text ++ q :: more).takeWhile p = text.takeWhile p := by
  induction text with
  | nil => simp [hq]
  | cons c text ih =>
      rw [List.cons_append, List.takeWhile_cons, List.takeWhile_cons, ih]

theorem dropWhile_append_cons {p : Char → Bool} {q : Char} (hq : p q = false)
    (text more : List Char) :
    (text ++ q :: more).dropWhile p = text.dropWhile p ++ q :: more := by
  induction text with
  | nil => simp [hq]
  | cons c text ih =>
      rw [List.cons_append, List.dropWhile_cons, List.dropWhile_cons, ih]
      split <;> rfl

end Text

open Text (BreaksLexemes takeWhile_append_cons dropWhile_append_cons)

namespace Scan

def behind (more : List Char) (scan : Scan) : Scan :=
  ⟨scan.result.mapError fun m => ⟨m.cause, m.place ++ more⟩, scan.rest ++ more⟩

theorem word_append {q : Char} (hq : BreaksLexemes q) (text more : List Char) :
    word (text ++ q :: more) = (word text).behind (q :: more) := by
  unfold word
  rw [takeWhile_append_cons hq.1, dropWhile_append_cons hq.1]
  rfl

theorem numberLexeme_append {q : Char} (hq : BreaksLexemes q) (text more : List Char) :
    numberLexeme (text ++ q :: more) =
      ((numberLexeme text).1, (numberLexeme text).2 ++ q :: more) := by
  have hdigit := hq.not_isDigit
  have hpoint : q ≠ '.' := by
    intro h
    exact hq.2 (by simp [h])
  unfold numberLexeme
  rw [takeWhile_append_cons hdigit, dropWhile_append_cons hdigit]
  cases htail : text.dropWhile Char.isDigit with
  | nil =>
      simp only [List.nil_append]
      split
      next heq =>
        cases heq
        contradiction
      next => rfl
  | cons d tail =>
      by_cases hd : d = '.'
      · subst hd
        cases tail with
        | nil =>
            simp only [List.cons_append, List.nil_append, hdigit]
            rfl
        | cons c tail =>
            simp only [List.cons_append]
            by_cases hc : c.isDigit = true
            · rw [if_pos hc, if_pos hc, ← List.cons_append, takeWhile_append_cons hdigit,
                dropWhile_append_cons hdigit]
            · rw [if_neg hc, if_neg hc]
              rfl
      · simp only [List.cons_append]
        split
        next heq => exact absurd (List.cons.inj heq).1 hd
        next =>
          split
          next heq => exact absurd (List.cons.inj heq).1 hd
          next => rfl

theorem number_append {q : Char} (hq : BreaksLexemes q) (text more : List Char) :
    number (text ++ q :: more) = (number text).behind (q :: more) := by
  unfold number
  rw [numberLexeme_append hq]
  dsimp only
  cases Binary64.ofText? (numberLexeme text).1 <;> rfl

theorem splitShape_append {q : Char} {shape : List Char} (hdigit : q.isDigit = false)
    (hshape : q ∉ shape) (text more : List Char) :
    splitShape shape (text ++ q :: more) =
      (splitShape shape text).map fun (lexeme, rest) => (lexeme, rest ++ q :: more) := by
  induction shape generalizing text with
  | nil => rfl
  | cons s shape ih =>
      rw [List.mem_cons, not_or] at hshape
      cases text with
      | nil => simp [splitShape, hdigit, hshape.1]
      | cons c text =>
          rw [List.cons_append, splitShape, splitShape]
          split
          · rw [ih hshape.2, Option.map_map, Option.map_map]
            rfl
          · rfl

theorem timeLexeme?_append {q : Char} (hq : BreaksLexemes q) (text more : List Char) :
    timeLexeme? (text ++ q :: more) =
      (timeLexeme? text).map fun (lexeme, rest) => (lexeme, rest ++ q :: more) := by
  have hdigit := hq.not_isDigit
  have hshape : q ∉ timeShape := by
    have hchars : ∀ c ∈ timeShape,
        Text.isWordChar c = true ∨ c ∈ ['.', '-', ' ', ':', '=', '~'] := by decide
    intro hmem
    rcases hchars q hmem with hword | hmark
    · simp [hq.1] at hword
    · exact hq.2 hmark
  have hpoint : q ≠ '.' := by
    intro h
    exact hq.2 (by simp [h])
  unfold timeLexeme?
  rw [splitShape_append hdigit hshape, Option.map_map, Option.map_map]
  cases splitShape timeShape text with
  | none => rfl
  | some parts =>
      obtain ⟨lexeme, rest⟩ := parts
      simp only [Option.map_some, Function.comp_apply, Option.some.injEq]
      cases rest with
      | nil =>
          simp only [List.nil_append]
          split
          next heq =>
            cases heq
            contradiction
          next => rfl
      | cons d rest =>
          by_cases hd : d = '.'
          · subst hd
            simp only [List.cons_append]
            rw [takeWhile_append_cons hdigit]
            split
            · rfl
            · have hlength : ((rest.takeWhile Char.isDigit).take 9).length ≤ rest.length :=
                Nat.le_trans (List.take_prefix _ _).length_le
                  (List.takeWhile_prefix _).length_le
              rw [List.drop_append_of_le_length hlength]
          · simp only [List.cons_append]
            split
            next heq => exact absurd (List.cons.inj heq).1 hd
            next =>
              split
              next heq => exact absurd (List.cons.inj heq).1 hd
              next => rfl

theorem timeOrNumber_append {q : Char} (hq : BreaksLexemes q) (text more : List Char) :
    timeOrNumber (text ++ q :: more) = (timeOrNumber text).behind (q :: more) := by
  unfold timeOrNumber
  rw [timeLexeme?_append hq]
  cases timeLexeme? text with
  | none => exact number_append hq text more
  | some parts =>
      obtain ⟨lexeme, rest⟩ := parts
      simp only [Option.map_some]
      cases instantOf? lexeme <;> rfl

theorem second_of_ofText? {c d : Char} {s : Symbol} (h : Symbol.ofText? [c, d] = some s) :
    d = '=' ∨ d = '~' := by
  have htext : s.text.toList = [c, d] := by simpa using List.find?_some h
  have hlast : [c, d].getLast? = some d := rfl
  rw [← htext] at hlast
  have hall : ∀ s ∈ Symbol.all, s.text.toList.length = 2 →
      s.text.toList.getLast? = some '=' ∨ s.text.toList.getLast? = some '~' := by decide
  have hlength : s.text.toList.length = 2 := by rw [htext]; rfl
  rcases hall s s.mem_all hlength with heq | heq
  · rw [heq] at hlast
    exact Or.inl (Option.some.inj hlast).symm
  · rw [heq] at hlast
    exact Or.inr (Option.some.inj hlast).symm

theorem leadingSymbol?_append {c q : Char} (hq : BreaksLexemes q) (text more : List Char) :
    leadingSymbol? c (text ++ q :: more) =
      (leadingSymbol? c text).map fun (s, rest) => (s, rest ++ q :: more) := by
  cases text with
  | nil =>
      have hnone : Symbol.ofText? [c, q] = none := by
        cases hs : Symbol.ofText? [c, q] with
        | none => rfl
        | some s =>
            have hmem : q ∈ ['.', '-', ' ', ':', '=', '~'] := by
              rcases second_of_ofText? hs with rfl | rfl <;> decide
            exact absurd hmem hq.2
      simp only [leadingSymbol?, List.nil_append, hnone, Option.map_map]
      rfl
  | cons d text =>
      simp only [leadingSymbol?, List.cons_append]
      cases Symbol.ofText? [c, d] with
      | some s => rfl
      | none =>
          simp only [Option.map_map]
          rfl

theorem symbol_append {c q : Char} (hq : BreaksLexemes q) (text more : List Char) :
    symbol c (text ++ q :: more) = (symbol c text).behind (q :: more) := by
  unfold symbol
  rw [leadingSymbol?_append hq]
  cases leadingSymbol? c text <;> rfl

/-- A lexeme outside quotes is the same in front of every text that begins with
a breaking character. -/
theorem lexeme_append {c q : Char} (hc : ¬ IsQuote c) (hq : BreaksLexemes q)
    (text more : List Char) :
    lexeme (c :: (text ++ q :: more)) = (lexeme (c :: text)).behind (q :: more) := by
  have hquote : ¬ (c = identQuote ∨ c = stringQuote) := hc
  rw [lexeme, lexeme, if_neg hquote, if_neg hquote]
  split
  · exact word_append hq (c :: text) more
  split
  · exact timeOrNumber_append hq (c :: text) more
  · exact symbol_append hq text more

/-! ## What a scan takes -/

theorem lexeme_ne_end {c : Char} {text : List Char} {t : Token}
    (h : (lexeme (c :: text)).result = .ok t) : t ≠ .endOfInput := by
  rw [lexeme] at h
  split at h
  · unfold quoted at h
    cases hread : Text.Quoted.readBody c text with
    | closed value rest =>
        simp only [hread] at h
        cases h
        split <;> simp
    | invalidEscape => simp [hread, misread] at h
    | unclosed => simp [hread, misread] at h
  split at h
  · cases h
    unfold wordToken
    split <;> simp
  split at h
  · unfold timeOrNumber number at h
    split at h
    · split at h
      · cases h
        simp
      · cases h
    · dsimp only at h
      split at h
      · cases h
        simp
      · cases h
  · unfold symbol at h
    split at h
    · cases h
      simp
    · cases h

/-- The end is answered behind the last lexeme, where only blanks are left. -/
theorem dropWhile_of_end {text : List Char} (h : (next text).result = .ok .endOfInput) :
    text.dropWhile Text.isBlank = [] := by
  unfold next at h
  cases hblanks : text.dropWhile Text.isBlank with
  | nil => rfl
  | cons c shown =>
      rw [hblanks] at h
      exact absurd rfl (lexeme_ne_end h)

theorem not_isQuote_of_isWordChar {c : Char} (hc : Text.isWordChar c = true) :
    ¬ IsQuote c := by
  rintro (rfl | rfl) <;> exact absurd hc (by decide)

theorem not_isQuote_of_isDigit {c : Char} (hc : c.isDigit = true) : ¬ IsQuote c := by
  rintro (rfl | rfl) <;> exact absurd hc (by decide)

theorem numberLexeme_front (text : List Char) :
    (numberLexeme text).1 ++ (numberLexeme text).2 = text ∧
      ∀ c ∈ (numberLexeme text).1, c.isDigit = true ∨ c = '.' := by
  have hwhole : ∀ c ∈ text.takeWhile Char.isDigit, c.isDigit = true ∨ c = '.' := by
    intro c hc
    exact Or.inl (List.all_eq_true.1 List.all_takeWhile c hc)
  unfold numberLexeme
  split
  next c rest htail =>
    split
    · have hfraction := List.takeWhile_append_dropWhile (p := Char.isDigit) (l := c :: rest)
      constructor
      · simp only [List.append_assoc, List.cons_append]
        rw [hfraction, ← htail, List.takeWhile_append_dropWhile]
      · intro d hd
        simp only [List.mem_append, List.mem_cons] at hd
        rcases hd with hd | rfl | hd
        · exact hwhole d hd
        · exact Or.inr rfl
        · exact Or.inl (List.all_eq_true.1 List.all_takeWhile d hd)
    · constructor
      · dsimp only
        rw [← htail, List.takeWhile_append_dropWhile]
      · exact hwhole
  next =>
    constructor
    · exact List.takeWhile_append_dropWhile
    · exact hwhole

theorem splitShape_front {shape text lexeme rest : List Char}
    (h : splitShape shape text = some (lexeme, rest)) :
    lexeme ++ rest = text ∧ ∀ c ∈ lexeme, c.isDigit = true ∨ c ∈ shape := by
  fun_induction splitShape shape text generalizing lexeme with
  | case1 text =>
      cases h
      simp
  | case2 => cases h
  | case3 s shape c text hmatch ih =>
      obtain ⟨⟨lexeme', rest'⟩, hsplit, heq⟩ := Option.map_eq_some_iff.1 h
      cases heq
      obtain ⟨happend, hchars⟩ := ih hsplit
      constructor
      · rw [List.cons_append, happend]
      · intro d hd
        rcases List.mem_cons.1 hd with rfl | hd
        · rcases hmatch with ⟨-, hdigit⟩ | ⟨-, rfl⟩
          · exact Or.inl hdigit
          · exact Or.inr (List.mem_cons_self ..)
        · exact (hchars d hd).imp_right (List.mem_cons_of_mem s)
  | case4 => cases h

theorem timeLexeme?_front {text lexeme rest : List Char}
    (h : timeLexeme? text = some (lexeme, rest)) :
    lexeme ++ rest = text ∧ ∀ c ∈ lexeme, c.isDigit = true ∨ c ∈ '.' :: timeShape := by
  obtain ⟨⟨clock, tail⟩, hsplit, heq⟩ := Option.map_eq_some_iff.1 h
  obtain ⟨happend, hchars⟩ := splitShape_front hsplit
  have hclock : ∀ c ∈ clock, c.isDigit = true ∨ c ∈ '.' :: timeShape := by
    intro c hc
    exact (hchars c hc).imp_right (List.mem_cons_of_mem '.')
  dsimp only at heq
  split at heq
  next fraction =>
    split at heq
    · cases heq
      exact ⟨happend, hclock⟩
    · cases heq
      have hprefix : (fraction.takeWhile Char.isDigit).take 9 <+: fraction :=
        (List.take_prefix _ _).trans (List.takeWhile_prefix _)
      constructor
      · rw [List.append_assoc, List.cons_append, List.prefix_iff_eq_append.1 hprefix]
        exact happend
      · intro d hd
        simp only [List.mem_append, List.mem_cons] at hd
        rcases hd with hd | rfl | hd
        · exact hclock d hd
        · exact Or.inr (List.mem_cons_self ..)
        · exact Or.inl (List.all_eq_true.1 List.all_takeWhile d (List.mem_of_mem_take hd))
  next =>
    cases heq
    exact ⟨happend, hclock⟩

theorem leadingSymbol?_front {c : Char} {text rest : List Char} {s : Symbol}
    (h : leadingSymbol? c text = some (s, rest)) : s.text.toList ++ rest = c :: text := by
  have hsingle : ∀ {text : List Char}, (Symbol.ofText? [c]).map (fun s => (s, text)) =
      some (s, rest) → s.text.toList ++ rest = c :: text := by
    intro text hmap
    obtain ⟨s', hs', heq⟩ := Option.map_eq_some_iff.1 hmap
    cases heq
    have htext : s.text.toList = [c] := by simpa using List.find?_some hs'
    rw [htext]
    rfl
  unfold leadingSymbol? at h
  cases text with
  | nil => exact hsingle h
  | cons d text =>
      dsimp only at h
      split at h
      next s' hs' =>
        cases h
        have htext : s.text.toList = [c, d] := by simpa using List.find?_some hs'
        rw [htext]
        rfl
      next => exact hsingle h

/-- Outside quotes a scan takes a front of the text, and no quote with it. -/
theorem lexeme_front {c : Char} (hc : ¬ IsQuote c) (text : List Char) :
    ∃ front, front ++ (lexeme (c :: text)).rest = c :: text ∧ ∀ d ∈ front, ¬ IsQuote d := by
  have hquote : ¬ (c = identQuote ∨ c = stringQuote) := hc
  rw [lexeme, if_neg hquote]
  split
  · refine ⟨(c :: text).takeWhile Text.isWordChar, List.takeWhile_append_dropWhile, ?_⟩
    intro d hd
    exact not_isQuote_of_isWordChar (List.all_eq_true.1 List.all_takeWhile d hd)
  split
  · unfold timeOrNumber
    cases htime : timeLexeme? (c :: text) with
    | some parts =>
        obtain ⟨clock, rest⟩ := parts
        obtain ⟨happend, hchars⟩ := timeLexeme?_front htime
        dsimp only
        cases instantOf? clock with
        | none => exact ⟨[], rfl, by simp⟩
        | some instant =>
            refine ⟨clock, happend, ?_⟩
            intro d hd
            rcases hchars d hd with hdigit | hshape
            · exact not_isQuote_of_isDigit hdigit
            · rintro (rfl | rfl) <;> exact absurd hshape (by decide)
    | none =>
        obtain ⟨happend, hchars⟩ := numberLexeme_front (c :: text)
        have hfront : ∀ d ∈ (numberLexeme (c :: text)).1, ¬ IsQuote d := by
          intro d hd
          rcases hchars d hd with hdigit | rfl
          · exact not_isQuote_of_isDigit hdigit
          · rintro (h | h) <;> exact absurd h (by decide)
        refine ⟨(numberLexeme (c :: text)).1, ?_, hfront⟩
        dsimp only [number]
        cases Binary64.ofText? (numberLexeme (c :: text)).1 <;> exact happend
  · unfold symbol
    cases hsymbol : leadingSymbol? c text with
    | none => exact ⟨[], rfl, by simp⟩
    | some pair =>
        obtain ⟨s, rest⟩ := pair
        refine ⟨s.text.toList, leadingSymbol?_front hsymbol, ?_⟩
        have hall : ∀ s ∈ Symbol.all, ∀ d ∈ s.text.toList, d ≠ identQuote ∧ d ≠ stringQuote := by
          decide
        intro d hd hd'
        rcases hd' with rfl | rfl
        · exact (hall s s.mem_all _ hd).1 rfl
        · exact (hall s s.mem_all _ hd).2 rfl

end Scan
end FilterLang
