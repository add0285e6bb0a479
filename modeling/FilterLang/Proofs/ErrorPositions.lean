import FilterLang.Proofs.QuotedReadings
import FilterLang.Proofs.Tilings
import Mathlib.Data.List.DropRight

/-!
# Where a text fails

An error names the one character that it is about: the character that begins no
lexeme, the opening quote of a form that is never closed, a stray backslash, or the
start of a text with the shape of a time.  Two characters of a text never stand at
one position, so the position alone gives the character back.

The text before the lexeme that could not be read is read without an error, as the
tokens that were given before the error.
-/

namespace FilterLang

open Text (isBlank)
open Text.Quoted (IsQuote Items Stray identQuote stringQuote)

/-! ## Positions -/

/-- The position of the character behind `front`.  Lines end with a line feed. -/
structure Position.Behind (p : Position) (front : List Char) : Prop where
  line : p.line = 1 + front.count '\n'
  column : p.column = 1 + (front.reverse.takeWhile (· ≠ '\n')).length

namespace Position

theorem after_append_singleton (front : List Char) (c : Char) :
    after (front ++ [c]) = (after front).step c := by
  rw [after, List.foldl_append, ← after]
  rfl

theorem behind_after (front : List Char) : (after front).Behind front := by
  induction front using List.reverseRecOn with
  | nil => exact ⟨rfl, rfl⟩
  | append_singleton front c ih =>
      rw [after_append_singleton, step]
      by_cases hc : c = '\n'
      · rw [if_pos hc]
        constructor
        · simp [hc, ih.line, Nat.add_assoc]
        · simp [hc]
      · rw [if_neg hc]
        constructor
        · simp [hc, ih.line]
        · simp [hc, ih.column]
          omega

/-- Behind two fronts of one text are two positions. -/
theorem Behind.unique {p : Position} {front longer : List Char} (h : p.Behind front)
    (h' : p.Behind longer) (hbegins : front <+: longer) : front = longer := by
  obtain ⟨more, rfl⟩ := hbegins
  have hcount : more.count '\n' = 0 := by
    have hline := h.line.symm.trans h'.line
    rw [List.count_append] at hline
    omega
  have hplain : ∀ c ∈ more.reverse, decide (c ≠ '\n') = true := by
    intro c hc
    have hne := List.count_eq_zero.1 hcount
    simp only [decide_eq_true_eq]
    rintro rfl
    exact hne (List.mem_reverse.1 hc)
  have hcolumn := h.column.symm.trans h'.column
  rw [List.reverse_append, List.takeWhile_append_of_pos hplain, List.length_append,
    List.length_reverse] at hcolumn
  have hnil : more = [] := List.eq_nil_of_length_eq_zero (by omega)
  rw [hnil, List.append_nil]

theorem Behind.index_unique {p : Position} {text : List Char} {i j : Nat}
    (h : p.Behind (text.take i)) (h' : p.Behind (text.take j)) (hi : i < text.length)
    (hj : j < text.length) : i = j := by
  have hlength : ∀ k < text.length, (text.take k).length = k := fun k hk =>
    List.length_take_of_le (Nat.le_of_lt hk)
  have hsame : text.take i = text.take j := by
    rcases Nat.le_total i j with hle | hle
    · exact h.unique h' (List.take_prefix_take_left hle)
    · exact (h'.unique h (List.take_prefix_take_left hle)).symm
  rw [← hlength i hi, hsame, hlength j hj]

end Position

/-! ## What an error is about -/

/-- What a text shows where an error points: the lexeme that cannot be read starts at
the first index, and the error is about the character at the second. -/
inductive Blames (text : List Char) : LexCause → Nat → Nat → Prop
  | char {c : Char} {i : Nat} (h : text[i]? = some c) : Blames text (.unexpectedChar c) i i
  | string {items value ending : List Char} {i : Nat}
      (h : text.drop i = '\'' :: (items ++ ending)) (hitems : Items '\'' items value)
      (hending : ending = [] ∨ ending = ['\\']) : Blames text .unterminatedString i i
  | ident {items value ending : List Char} {i : Nat}
      (h : text.drop i = '"' :: (items ++ ending)) (hitems : Items '"' items value)
      (hending : ending = [] ∨ ending = ['\\']) : Blames text .unterminatedIdent i i
  | escape {q : Char} {items value more : List Char} {sequence : String} {j : Nat}
      (hq : IsQuote q) (h : text.drop j = q :: (items ++ '\\' :: more))
      (hitems : Items q items value) (hmore : Stray more) :
      Blames text (.invalidEscape sequence) j (j + 1 + items.length)
  | time {shown : String} {i : Nat} (h : shown.toList <+: text.drop i) :
      Blames text (.invalidTime shown) i i

theorem Blames.lt {text : List Char} {cause : LexCause} {i j : Nat} (h : Blames text cause j i)
    (hj : j < text.length) : i < text.length := by
  cases h with
  | char | string | ident | time => exact hj
  | escape _ h =>
      have hlength := congrArg List.length h
      simp only [List.length_drop, List.length_cons, List.length_append] at hlength
      omega

namespace Lexer

variable {lexer : Lexer} {e : LexError}

theorem start_lt (h : lexer.ahead ≠ []) : lexer.start < lexer.source.length := by
  have hpositive := List.length_pos_iff.2 h
  rw [ahead, List.length_drop] at hpositive
  omega

/-- Blanks in front of the next lexeme have no part in the answer. -/
theorem nextToken_at_start (lexer : Lexer) :
    (nextToken ⟨lexer.source, lexer.start⟩).1 = lexer.nextToken.1 := by
  have hahead : ahead ⟨lexer.source, lexer.start⟩ = lexer.ahead := by
    have hrest : rest ⟨lexer.source, lexer.start⟩ = lexer.ahead := rfl
    rw [ahead_eq, hrest, ahead_eq, List.dropWhile_idempotent]
  rw [nextToken_eq, nextToken_eq, hahead]

theorem blames_of_quote {q : Char} {tail : List Char} (hq : IsQuote q)
    (hrest : lexer.rest = q :: tail) (h : lexer.nextToken.1 = .error e) :
    ∃ i, Blames lexer.source e.cause lexer.cursor i ∧
      e.position = Position.after (lexer.source.take i) := by
  obtain ⟨items, value, ending, hitems, hending, rfl⟩ := Text.Quoted.exists_ending q tail
  have hunclosed : ending = [] ∨ ending = ['\\'] →
      ∃ i, Blames lexer.source e.cause lexer.cursor i ∧
        e.position = Position.after (lexer.source.take i) := by
    intro hopen
    rw [nextToken_unclosed hq hitems hopen hrest] at h
    cases h
    rcases hq with rfl | rfl
    · exact ⟨lexer.cursor, .ident hrest hitems hopen, rfl⟩
    · exact ⟨lexer.cursor, .string hrest hitems hopen, rfl⟩
  cases hending with
  | quote rest =>
      rw [nextToken_closed hq hitems hrest] at h
      cases h
  | stray hmore =>
      obtain ⟨sequence, herror⟩ := nextToken_stray hq hitems hmore hrest
      rw [herror] at h
      cases h
      exact ⟨_, .escape hq hrest hitems hmore, rfl⟩
  | nothing => exact hunclosed (Or.inl rfl)
  | backslash => exact hunclosed (Or.inr rfl)

/-- An error is about a character of the lexeme that could not be read. -/
theorem blames_of_error (h : lexer.nextToken.1 = .error e) :
    lexer.start < lexer.source.length ∧
    ∃ i, Blames lexer.source e.cause lexer.start i ∧
      e.position = Position.after (lexer.source.take i) := by
  have hne : lexer.ahead ≠ [] := by
    intro hnil
    rw [nextToken_end hnil] at h
    cases h
  refine ⟨start_lt hne, ?_⟩
  by_cases htime : Mistimed lexer.ahead
  · obtain ⟨shown, hshown, herror⟩ := nextToken_of_mistimed htime
    rw [herror] at h
    cases h
    exact ⟨lexer.start, .time hshown, rfl⟩
  have hnone : ∀ front t, front <+: lexer.ahead → ¬ Lexeme front t := by
    intro front t hbegins hfront
    obtain ⟨_, _, hlongest⟩ := exists_longestLexeme htime hbegins hfront
    rw [nextToken_of_longest htime hlongest] at h
    cases h
  obtain ⟨m, hm, herror⟩ := nextToken_of_no_lexeme hne htime hnone
  obtain ⟨c, tail, hahead⟩ := List.exists_cons_of_ne_nil hne
  by_cases hquote : IsQuote c
  · rw [← nextToken_at_start] at h
    have hrest : rest ⟨lexer.source, lexer.start⟩ = c :: tail := hahead
    exact blames_of_quote hquote hrest h
  · have hchar : m = ⟨.unexpectedChar c, lexer.ahead⟩ :=
      (hm c (by rw [hahead]; rfl)).1 hquote
    rw [herror, hchar, locate_ahead] at h
    cases h
    have hfirst : lexer.source[lexer.start]? = some c := by
      rw [← List.head?_drop, ← ahead, hahead]
      rfl
    exact ⟨lexer.start, .char hfirst, rfl⟩

end Lexer

/-! ## What was read before -/

theorem exists_takes_of_scanAll_error {text : List Char} {m : Misread}
    (h : scanAll text = .error m) :
    ∃ read rest tokens, Takes read tokens rest ∧ read ++ rest = text ∧
      (Scan.next rest).result = .error m := by
  fun_induction scanAll text with
  | case1 text m' hresult =>
      cases h
      exact ⟨[], text, [], .nil text, rfl, hresult⟩
  | case2 => cases h
  | case3 text t hresult hend hshorter ih =>
      have hnext : Scan.next text = ⟨.ok t, (Scan.next text).rest⟩ := by rw [← hresult]
      obtain ⟨blanks, front, hblanks, hsplit, hfront⟩ := exists_stands hnext hend
      generalize (Scan.next text).rest = later at h ih hsplit hfront
      cases hlater : scanAll later with
      | ok tokens =>
          rw [hlater] at h
          cases h
      | error m' =>
          rw [hlater] at h
          cases h
          obtain ⟨read, rest, tokens, htakes, rfl, herror⟩ := ih hlater
          refine ⟨_, rest, _, .cons hblanks hfront htakes, ?_, herror⟩
          rw [← hsplit, List.append_assoc _ read]

namespace Lexer

theorem run_append (lexer : Lexer) (calls later : List Call) :
    lexer.run (calls ++ later) =
      ((lexer.run calls).1 ++ ((lexer.run calls).2.run later).1,
        ((lexer.run calls).2.run later).2) := by
  induction calls generalizing lexer with
  | nil => rfl
  | cons c calls ih =>
      rw [List.cons_append, run, ih]
      rfl

theorem next?_of_nextToken {lexer after : Lexer} {t : Token} (hne : lexer.rest ≠ [])
    (h : lexer.nextToken = (.ok t, after)) (ht : t ≠ .endOfInput) :
    lexer.next? = (some (.ok t), after) := by
  have hle : lexer.cursor ≤ lexer.source.length := by
    by_contra hlt
    exact hne (List.drop_eq_nil_of_le (by omega))
  obtain ⟨-, hitem, hafter⟩ := next?_of_cursor_le hle
  rw [h] at hitem hafter
  have hfirst := hitem (by simpa using ht)
  exact Prod.ext hfirst (hafter (by simp [hfirst]))

/-- The items of a lexer in front of lexemes are their tokens. -/
theorem run_items {lexer : Lexer} {read rest : List Char} {tokens : List Token}
    (h : Takes read tokens rest) (hrest : read ++ rest = lexer.rest) :
    lexer.run (List.replicate tokens.length .item) =
      (tokens.map fun t => .item (some (.ok t)),
        { lexer with cursor := lexer.cursor + read.length }) := by
  induction h generalizing lexer with
  | nil => rfl
  | @cons blanks front read rest t tokens hblanks hfront _ ih =>
      have hsplit : blanks ++ front ++ (read ++ rest) = lexer.rest := by
        rw [← hrest, List.append_assoc _ read]
      have hnext := hfront.next hblanks
      rw [hsplit] at hnext
      have htoken : lexer.nextToken = (.ok t, lexer.advance (read ++ rest)) := by
        rw [nextToken, hnext]
        rfl
      have hne : lexer.rest ≠ [] := by
        rw [← hsplit]
        simp [hfront.longest.lexeme.ne_nil]
      have hlater := ih (rest_advance hsplit).symm
      rw [cursor_advance hsplit, Nat.add_assoc, ← List.length_append] at hlater
      rw [List.length_cons, List.replicate_succ, run, call,
        next?_of_nextToken hne htoken hfront.ne_end, hlater]
      rfl

/-- The text before the next lexeme is read as the tokens before it. -/
theorem scanAll_take_start {lexer : Lexer} {tokens : List Token}
    (h : Takes (lexer.source.take lexer.cursor) tokens lexer.rest) :
    scanAll (lexer.source.take lexer.start) = .ok tokens := by
  have hblanks : lexer.rest.take (lexer.rest.takeWhile isBlank).length =
      lexer.rest.takeWhile isBlank :=
    (List.prefix_iff_eq_take.1 (List.takeWhile_prefix isBlank)).symm
  rw [start, List.take_add, ← rest, hblanks]
  rw [← List.takeWhile_append_dropWhile (p := isBlank) (l := lexer.rest)] at h
  exact h.scanAll_read_blanks fun c hc => List.mem_takeWhile_imp hc

/-- A text that fails gives tokens up to a lexer whose next token is the error. -/
theorem exists_stuck {text : String} {e : LexError} (h : tokenize text = .error e) :
    ∃ (tokens : List Token) (stuck : Lexer),
      (ofText text).run (List.replicate tokens.length .item) =
        (tokens.map fun t => .item (some (.ok t)), stuck) ∧
      stuck.source = text.toList ∧ stuck.cursor ≤ stuck.source.length ∧
      Takes (stuck.source.take stuck.cursor) tokens stuck.rest ∧
      stuck.nextToken.1 = .error e := by
  rw [tokenize] at h
  cases hscan : scanAll text.toList with
  | ok tokens =>
      rw [hscan] at h
      cases h
  | error m =>
      rw [hscan] at h
      cases h
      obtain ⟨read, rest, tokens, htakes, hsplit, hnext⟩ := exists_takes_of_scanAll_error hscan
      have hfirst : read ++ rest = (ofText text).rest := hsplit
      have hrun := run_items htakes hfirst
      rw [ofText, Nat.zero_add] at hrun
      have hread : text.toList.take read.length = read := by rw [← hsplit, List.take_left]
      have hrest : Lexer.rest ⟨text.toList, read.length⟩ = rest := by
        rw [Lexer.rest, ← hsplit, List.drop_left]
      refine ⟨tokens, _, hrun, rfl, ?_, ?_, ?_⟩
      · rw [← hsplit, List.length_append]
        exact Nat.le_add_right ..
      · rwa [hread, hrest]
      · rw [nextToken, hrest, hnext]
        rfl

end Lexer

/-- An error gives the position of one character of the text, which is the one that it
is about.  The text before the lexeme in question is read as the tokens that were given
before the error. -/
theorem error_positions_are_exact {text : String} {e : LexError} (h : tokenize text = .error e) :
    ∃ i j tokens,
      (i < text.length ∧ e.position.Behind (text.toList.take i) ∧
        ∀ i' < text.length, e.position.Behind (text.toList.take i') → i' = i) ∧
      Blames text.toList e.cause j i ∧
      tokenize (String.ofList (text.toList.take j)) = .ok tokens ∧
      ((Lexer.ofText text).run (List.replicate (tokens.length + 1) .item)).1 =
        (tokens.map fun t => .item (some (.ok t))) ++ [.item (some (.error e))] := by
  obtain ⟨tokens, stuck, hrun, hsource, hle, htakes, herror⟩ := Lexer.exists_stuck h
  obtain ⟨hstart, i, hblames, hposition⟩ := Lexer.blames_of_error herror
  have hi := hblames.lt hstart
  have hbehind := Position.behind_after (stuck.source.take i)
  have hitem := (Lexer.next?_of_cursor_le hle).2.1 (by simp [herror])
  rw [← hposition] at hbehind
  rw [← String.length_toList, ← hsource]
  refine ⟨i, stuck.start, tokens, ⟨hi, hbehind, ?_⟩, hblames, ?_, ?_⟩
  · intro i' hi' hbehind'
    exact hbehind'.index_unique hbehind hi' hi
  · rw [tokenize_eq_ok_iff, String.toList_ofList]
    exact Lexer.scanAll_take_start htakes
  · rw [List.replicate_succ', Lexer.run_append, hrun, List.append_cancel_left_eq, Lexer.run,
      Lexer.call, hitem, herror]
    rfl

/-- A stray backslash on the second line, in a string behind a name. -/
theorem error_positions_are_exact_at_a_stray_backslash :
    tokenize "ok\n 'it\\q'" = .error ⟨.invalidEscape "q", ⟨2, 5⟩⟩ ∧
      ∃ i j tokens,
        (i < "ok\n 'it\\q'".length ∧ (⟨2, 5⟩ : Position).Behind ("ok\n 'it\\q'".toList.take i) ∧
          ∀ i' < "ok\n 'it\\q'".length,
            (⟨2, 5⟩ : Position).Behind ("ok\n 'it\\q'".toList.take i') → i' = i) ∧
        Blames "ok\n 'it\\q'".toList (.invalidEscape "q") j i ∧
        tokenize (String.ofList ("ok\n 'it\\q'".toList.take j)) = .ok tokens ∧
        ((Lexer.ofText "ok\n 'it\\q'").run (List.replicate (tokens.length + 1) .item)).1 =
          (tokens.map fun t => .item (some (.ok t))) ++
            [.item (some (.error ⟨.invalidEscape "q", ⟨2, 5⟩⟩))] := by
  have herror : tokenize "ok\n 'it\\q'" = .error ⟨.invalidEscape "q", ⟨2, 5⟩⟩ := by
    decide +kernel
  exact ⟨herror, error_positions_are_exact herror⟩

end FilterLang
