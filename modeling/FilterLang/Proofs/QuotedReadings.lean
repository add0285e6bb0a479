import FilterLang.Proofs.MaximalMunch
import FilterLang.Proofs.QuotedGrammar

/-!
# Every way to read a quoted form

The items behind an opening quote end in one of four ways: at the closing quote,
at a stray backslash, at the end of the text, or at a backslash that is the last
character.  The first gives a token.  The second is an error at the backslash, and
the last two are errors at the opening quote.

The items in front of the end have no part in which way it is.  They put their
characters in front of a value and leave an error as it is.
-/

namespace FilterLang
namespace Text
namespace Quoted

/-- Text behind a backslash that starts no escape. -/
structure Stray (more : List Char) : Prop where
  ne_nil : more ≠ []
  not_escapes : ∀ sequence c, Escapes sequence c → ¬ sequence <+: more

/-- What may stand behind the items of a quoted form. -/
inductive Ending (q : Char) : List Char → Prop
  | quote (rest : List Char) : Ending q (q :: rest)
  | stray {more : List Char} (h : Stray more) : Ending q ('\\' :: more)
  | nothing : Ending q []
  | backslash : Ending q ['\\']

/-! ## Stray backslashes -/

theorem readCode_ne_ended (text : List Char) : readCode text ≠ .ended := by
  intro h
  unfold readCode at h
  split at h
  next body =>
    dsimp only at h
    split at h
    next rest hdrop =>
      split at h
      next => cases h
      next => cases h
    next => cases h
  next => cases h

theorem readEscape_eq_ended {text : List Char} (h : readEscape text = .ended) : text = [] := by
  cases text with
  | nil => rfl
  | cons c text =>
      simp only [readEscape] at h
      iterate 4
        split at h
        next => cases h
      split at h
      next => exact absurd h (readCode_ne_ended text)
      next => cases h

theorem stray_of_readEscape {more sequence rest : List Char}
    (h : readEscape more = .invalid sequence rest) : Stray more := by
  constructor
  · rintro rfl
    cases h
  · rintro escape c hescape ⟨tail, rfl⟩
    rw [readEscape_of_escapes hescape] at h
    cases h

theorem Stray.readEscape {more : List Char} (h : Stray more) :
    ∃ sequence rest, readEscape more = .invalid sequence rest := by
  cases hread : Quoted.readEscape more with
  | ended => exact absurd (readEscape_eq_ended hread) h.ne_nil
  | decoded c rest =>
      obtain ⟨sequence, hescape, rfl⟩ := escapes_of_readEscape hread
      exact absurd (List.prefix_append ..) (h.not_escapes sequence c hescape)
  | invalid sequence rest => exact ⟨sequence, rest, rfl⟩

/-! ## Items and what ends them -/

theorem exists_ending (q : Char) (text : List Char) :
    ∃ items value ending, Items q items value ∧ Ending q ending ∧ text = items ++ ending := by
  fun_induction readBody q text with
  | case1 => exact ⟨[], [], [], .nil, .nothing, rfl⟩
  | case2 text => exact ⟨[], [], _, .nil, .quote text, rfl⟩
  | case3 text hended hquote =>
      obtain rfl := readEscape_eq_ended hended
      exact ⟨[], [], _, .nil, .backslash, rfl⟩
  | case4 text d rest' hescape hshorter hquote ih =>
      obtain ⟨items, value, ending, hitems, hending, rfl⟩ := ih
      obtain ⟨sequence, hsequence, rfl⟩ := escapes_of_readEscape hescape
      exact ⟨_, _, ending, .escape hsequence hitems, hending, by simp⟩
  | case5 text sequence rest hinvalid hquote =>
      exact ⟨[], [], _, .nil, .stray (stray_of_readEscape hinvalid), rfl⟩
  | case6 c text hquote hbackslash ih =>
      obtain ⟨items, value, ending, hitems, hending, rfl⟩ := ih
      exact ⟨_, _, ending, .plain hquote hbackslash hitems, hending, rfl⟩

theorem Reading.foldr_push_unclosed (value : List Char) :
    value.foldr push .unclosed = .unclosed := by
  induction value with
  | nil => rfl
  | cons c value ih =>
      rw [List.foldr_cons, ih]
      rfl

theorem Reading.foldr_push_invalidEscape (value sequence place rest : List Char) :
    value.foldr push (.invalidEscape sequence place rest) =
      .invalidEscape sequence place rest := by
  induction value with
  | nil => rfl
  | cons c value ih =>
      rw [List.foldr_cons, ih]
      rfl

theorem readBody_invalid {q : Char} (hq : IsQuote q) {items value more sequence rest : List Char}
    (hitems : Items q items value) (hread : readEscape more = .invalid sequence rest) :
    readBody q (items ++ '\\' :: more) = .invalidEscape sequence ('\\' :: more) rest := by
  rw [readBody_items hq hitems, readBody, if_neg (Ne.symm hq.ne_backslash), if_pos rfl]
  split
  next hended => simp [hread] at hended
  next hdecoded => simp [hread] at hdecoded
  next sequence' rest' hinvalid =>
    rw [hread] at hinvalid
    cases hinvalid
    exact Reading.foldr_push_invalidEscape ..

theorem readBody_unclosed {q : Char} (hq : IsQuote q) {items value ending : List Char}
    (hitems : Items q items value) (hending : ending = [] ∨ ending = ['\\']) :
    readBody q (items ++ ending) = .unclosed := by
  have hopen : readBody q ending = .unclosed := by
    rcases hending with rfl | rfl
    · rw [readBody]
    · rw [readBody, if_neg (Ne.symm hq.ne_backslash), if_pos rfl]
      rfl
  rw [readBody_items hq hitems, hopen, Reading.foldr_push_unclosed]

end Quoted
end Text

open Text.Quoted (IsQuote Items Stray Ending identQuote stringQuote)

/-! ## The lexer -/

namespace Lexer

variable {lexer : Lexer} {q : Char} {tail : List Char}

theorem nextToken_quote (hq : IsQuote q) (hrest : lexer.rest = q :: tail) :
    lexer.nextToken =
      ((Scan.quoted q tail).result.mapError (Misread.locate lexer.source),
        lexer.advance (Scan.quoted q tail).rest) := by
  rw [nextToken, hrest, Scan.next_quote hq]

theorem drop_behind_items {items more : List Char} (hrest : lexer.rest = q :: (items ++ more)) :
    lexer.source.drop (lexer.cursor + 1 + items.length) = more := by
  have hdrop : lexer.source.drop (lexer.cursor + 1 + items.length) =
      lexer.rest.drop (items.length + 1) := by
    rw [rest, List.drop_drop, Nat.add_assoc, Nat.add_comm 1]
  rw [hdrop, hrest, List.drop_succ_cons, List.drop_left]

theorem nextToken_closed {items value rest : List Char} (hq : IsQuote q)
    (hitems : Items q items value) (hrest : lexer.rest = q :: (items ++ q :: rest)) :
    lexer.nextToken =
      (.ok (if q = identQuote then .ident (String.ofList value)
        else .string (String.ofList value)),
        { lexer with cursor := lexer.cursor + items.length + 2 }) := by
  have hsplit : (q :: items ++ [q]) ++ rest = lexer.rest := by simp [hrest]
  have hlength : (q :: items ++ [q]).length = items.length + 2 := by simp
  have hafter : lexer.advance rest =
      { lexer with cursor := lexer.cursor + items.length + 2 } := by
    rw [Nat.add_assoc, ← hlength, ← cursor_advance hsplit]
    rfl
  rw [nextToken_quote hq hrest, Scan.quoted, Text.Quoted.readBody_of_items hq hitems, hafter]
  rfl

theorem nextToken_invalid {items value more sequence rest : List Char} (hq : IsQuote q)
    (hitems : Items q items value) (hread : Text.Quoted.readEscape more = .invalid sequence rest)
    (hrest : lexer.rest = q :: (items ++ '\\' :: more)) :
    lexer.nextToken.1 = .error ⟨.invalidEscape (String.ofList sequence),
      Position.after (lexer.source.take (lexer.cursor + 1 + items.length))⟩ := by
  have hbody := Text.Quoted.readBody_invalid hq hitems hread
  rw [nextToken_quote hq hrest, Scan.quoted, hbody, ← Misread.locate_drop,
    drop_behind_items hrest]
  rfl

theorem nextToken_stray {items value more : List Char} (hq : IsQuote q)
    (hitems : Items q items value) (hmore : Stray more)
    (hrest : lexer.rest = q :: (items ++ '\\' :: more)) :
    ∃ sequence,
      lexer.nextToken.1 = .error ⟨.invalidEscape sequence,
        Position.after (lexer.source.take (lexer.cursor + 1 + items.length))⟩ := by
  obtain ⟨sequence, rest, hread⟩ := hmore.readEscape
  exact ⟨String.ofList sequence, nextToken_invalid hq hitems hread hrest⟩

theorem nextToken_unclosed {items value ending : List Char} (hq : IsQuote q)
    (hitems : Items q items value) (hending : ending = [] ∨ ending = ['\\'])
    (hrest : lexer.rest = q :: (items ++ ending)) :
    lexer.nextToken.1 = .error
      ⟨if q = identQuote then .unterminatedIdent else .unterminatedString,
        Position.after (lexer.source.take lexer.cursor)⟩ := by
  have hread := Text.Quoted.readBody_unclosed hq hitems hending
  rw [nextToken_quote hq hrest, Scan.quoted, hread, ← Misread.locate_drop, ← rest, hrest]
  rfl

end Lexer

/-- At a quote, a token is read or refused by how the items behind it end. -/
theorem quoted_forms_are_read_by_their_grammar {lexer : Lexer} {q : Char} {tail : List Char}
    (hq : IsQuote q) (hrest : lexer.rest = q :: tail) :
    (∃ items value ending, Items q items value ∧ Ending q ending ∧ tail = items ++ ending) ∧
    (∀ items value rest, Items q items value → tail = items ++ q :: rest →
      lexer.nextToken =
        (.ok (if q = identQuote then .ident (String.ofList value)
          else .string (String.ofList value)),
          { lexer with cursor := lexer.cursor + items.length + 2 })) ∧
    (∀ items value more, Items q items value → Stray more → tail = items ++ '\\' :: more →
      ∃ sequence,
        lexer.nextToken.1 = .error ⟨.invalidEscape sequence,
          Position.after (lexer.source.take (lexer.cursor + 1 + items.length))⟩) ∧
    ∀ items value, Items q items value → tail = items ∨ tail = items ++ ['\\'] →
      lexer.nextToken.1 = .error
        ⟨if q = identQuote then .unterminatedIdent else .unterminatedString,
          Position.after (lexer.source.take lexer.cursor)⟩ := by
  refine ⟨Text.Quoted.exists_ending q tail, ?_, ?_, ?_⟩
  · rintro items value rest hitems rfl
    exact Lexer.nextToken_closed hq hitems hrest
  · rintro items value more hitems hmore rfl
    exact Lexer.nextToken_stray hq hitems hmore hrest
  · rintro items value hitems (rfl | rfl)
    · exact Lexer.nextToken_unclosed hq hitems (Or.inl rfl) (by rw [hrest, List.append_nil])
    · exact Lexer.nextToken_unclosed hq hitems (Or.inr rfl) hrest

/-- A code in a string behind a comparison, a code cut short in a name on the second
line, and a string whose last character is a backslash. -/
theorem quoted_forms_are_read_by_their_grammar_at_codes :
    (Lexer.rest ⟨"a='\\u\x7bE9\x7d' b".toList, 2⟩ = '\'' :: "\\u\x7bE9\x7d' b".toList ∧
      Items '\'' "\\u\x7bE9\x7d".toList ['é'] ∧
      Lexer.nextToken ⟨"a='\\u\x7bE9\x7d' b".toList, 2⟩ =
        (.ok (.string "é"), ⟨"a='\\u\x7bE9\x7d' b".toList, 10⟩)) ∧
    (Lexer.rest ⟨"a\n\"b\\u".toList, 2⟩ = '"' :: "b\\u".toList ∧
      Items '"' ['b'] ['b'] ∧ Stray ['u'] ∧
      ∃ sequence, (Lexer.nextToken ⟨"a\n\"b\\u".toList, 2⟩).1 =
        .error ⟨.invalidEscape sequence, ⟨2, 3⟩⟩) ∧
    Lexer.rest ⟨"a 'b\\".toList, 2⟩ = '\'' :: "b\\".toList ∧ Items '\'' ['b'] ['b'] ∧
      (Lexer.nextToken ⟨"a 'b\\".toList, 2⟩).1 = .error ⟨.unterminatedString, ⟨1, 3⟩⟩ := by
  have hcode : Items '\'' "\\u\x7bE9\x7d".toList ['é'] :=
    .escape (.code (by decide) (by decide) (by decide) : Text.Quoted.Escapes
      ('u' :: '\x7b' :: ['E', '9'] ++ ['\x7d']) 'é') .nil
  have hname : Items '"' ['b'] ['b'] := .plain (by decide) (by decide) .nil
  have hvalue : Items '\'' ['b'] ['b'] := .plain (by decide) (by decide) .nil
  have hstray : Stray ['u'] := Text.Quoted.stray_of_readEscape rfl
  refine ⟨⟨rfl, hcode, ?_⟩, ⟨rfl, hname, hstray, ?_⟩, rfl, hvalue, ?_⟩
  · exact (quoted_forms_are_read_by_their_grammar (Or.inr rfl) rfl).2.1 _ _ " b".toList hcode rfl
  · exact (quoted_forms_are_read_by_their_grammar (Or.inl rfl) rfl).2.2.1 _ _ _ hname hstray rfl
  · exact (quoted_forms_are_read_by_their_grammar (Or.inr rfl) rfl).2.2.2 _ _ hvalue (Or.inr rfl)

end FilterLang
