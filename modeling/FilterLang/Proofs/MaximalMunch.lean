import FilterLang.Proofs.Lexemes

/-!
# The longest lexeme is taken

A scan that does not start at a blank takes the longest lexeme there.  One text
is an exception: if it begins with the shape of a time, and the fields are no
real date and time of day, then it is an error, although a number stands there.

A consequence is that a token does not depend on what follows it.  The longest
lexeme of a text is still the longest after the text is cut anywhere behind it.
-/

namespace FilterLang

open Text (isBlank isWordStart isWordChar)
open Text.Quoted (IsQuote Items identQuote stringQuote readBody)

-- What holds of each character of a list is decided along the list.
attribute [local instance (high)] List.decidableBAll

/-- The longest front of a text that is a lexeme, and the token it denotes. -/
structure LongestLexeme (text front : List Char) (t : Token) : Prop where
  isPrefix : front <+: text
  lexeme : Lexeme front t
  length_le : ∀ other t', other <+: text → Lexeme other t' → other.length ≤ front.length

/-- Texts that begin with the shape of a time, but with no time. -/
def Mistimed (text : List Char) : Prop :=
  (∃ clock f, clock <+: text ∧ ShowsFields clock f) ∧
    ∀ front c, front <+: text → ¬ TimeText front c

/-- Why a text that begins with no lexeme is refused: its first character fits
nowhere, or it opens a quoted form that is not closed. -/
def Refuses (text : List Char) (m : Misread) : Prop :=
  ∀ c ∈ text.head?,
    (¬ IsQuote c → m = ⟨.unexpectedChar c, text⟩) ∧
      (IsQuote c →
        m = ⟨if c = identQuote then .unterminatedIdent else .unterminatedString, text⟩ ∨
          ∃ sequence, m.cause = .invalidEscape sequence)

/-- What a scan of a text is by the rule of the longest lexeme. -/
inductive Munches (text : List Char) : Scan → Prop
  | mistimed {shown : List Char} (h : Mistimed text) (hshown : shown <+: text) :
      Munches text (Scan.misread (.invalidTime (String.ofList shown)) text text)
  | taken {front rest : List Char} {t : Token} (htime : ¬ Mistimed text)
      (hlongest : LongestLexeme text front t) (hrest : front ++ rest = text) :
      Munches text ⟨.ok t, rest⟩
  | refused {m : Misread} {rest : List Char} (htime : ¬ Mistimed text)
      (hnone : ∀ front t, front <+: text → ¬ Lexeme front t) (hm : Refuses text m) :
      Munches text ⟨.error m, rest⟩

theorem LongestLexeme.unique {text front front' : List Char} {t t' : Token}
    (h : LongestLexeme text front t) (h' : LongestLexeme text front' t') :
    front = front' ∧ t = t' := by
  have hle := h.length_le front' t' h'.isPrefix h'.lexeme
  have hge := h'.length_le front t h.isPrefix h.lexeme
  have hsame : front = front' :=
    (List.prefix_of_prefix_length_le h.isPrefix h'.isPrefix hge).eq_of_length (by omega)
  subst hsame
  exact ⟨rfl, h.lexeme.unique h'.lexeme⟩

theorem exists_cons_of_prefix {front tail : List Char} {c : Char} (h : front <+: c :: tail)
    (hne : front ≠ []) : ∃ front', front = c :: front' ∧ front' <+: tail := by
  obtain ⟨d, front', rfl⟩ := List.exists_cons_of_ne_nil hne
  obtain ⟨rfl, hbegins⟩ := List.cons_prefix_cons.1 h
  exact ⟨front', rfl, hbegins⟩

theorem length_le_takeWhile {p : Char → Bool} {front text : List Char} (h : front <+: text)
    (hfront : ∀ c ∈ front, p c = true) : front.length ≤ (text.takeWhile p).length := by
  obtain ⟨rest, rfl⟩ := h
  rw [List.takeWhile_append_of_pos hfront, List.length_append]
  omega

theorem Mistimed.isDigit {c : Char} {tail : List Char} (h : Mistimed (c :: tail)) :
    c.isDigit = true := by
  obtain ⟨⟨clock, f, hbegins, hclock⟩, -⟩ := h
  obtain ⟨d, rest, rfl, hd⟩ := hclock.exists_cons
  rwa [← (List.cons_prefix_cons.1 hbegins).1]

theorem Mistimed.ne_nil {text : List Char} (h : Mistimed text) : text ≠ [] := by
  rintro rfl
  obtain ⟨⟨clock, f, hbegins, hclock⟩, -⟩ := h
  obtain ⟨d, rest, rfl, -⟩ := hclock.exists_cons
  exact absurd hbegins (by simp)

theorem Mistimed.le_length {text : List Char} (h : Mistimed text) : 19 ≤ text.length := by
  obtain ⟨⟨clock, f, hbegins, hclock⟩, -⟩ := h
  have hle := hbegins.length_le
  rwa [hclock.length_eq] at hle

/-! ## Kind by kind -/

theorem munches_quoted {q : Char} (hq : IsQuote q) (tail : List Char) :
    Munches (q :: tail) (Scan.quoted q tail) := by
  have hquote : q = identQuote ∨ q = stringQuote := hq
  have htime : ¬ Mistimed (q :: tail) := fun h => Scan.not_isQuote_of_isDigit h.isDigit hq
  have hlexeme : ∀ front t, front <+: q :: tail → Lexeme front t →
      ∃ items value rest, front = q :: items ++ [q] ∧ tail = items ++ q :: rest ∧
        readBody q tail = .closed value rest := by
    intro front t hbegins hfront
    obtain ⟨front', rfl, rest, rfl⟩ := exists_cons_of_prefix hbegins hfront.ne_nil
    obtain ⟨items, value, rfl, hitems, -⟩ := (Lexeme.byFirst_quote_iff hquote).1 hfront.byFirst
    refine ⟨items, value, rest, rfl, by simp, ?_⟩
    have hread := Text.Quoted.readBody_of_items hq hitems rest
    simpa using hread
  have hnone : (∀ value rest, readBody q tail ≠ .closed value rest) →
      ∀ front t, front <+: q :: tail → ¬ Lexeme front t := by
    intro hopen front t hbegins hfront
    obtain ⟨_, value, rest, -, -, hread⟩ := hlexeme front t hbegins hfront
    exact hopen value rest hread
  unfold Scan.quoted
  cases hread : readBody q tail with
  | closed value rest =>
      obtain ⟨items, hitems, rfl⟩ := Text.Quoted.items_of_readBody hread
      have hlongest : LongestLexeme (q :: (items ++ q :: rest)) (q :: items ++ [q])
          (if q = identQuote then .ident (String.ofList value)
            else .string (String.ofList value)) := by
        constructor
        · exact ⟨rest, by simp⟩
        · rcases hquote with rfl | rfl
          · exact .quotedName hitems
          · exact .quotedString hitems
        · intro other t' hbegins hother
          obtain ⟨items', value', rest', rfl, heq, hread'⟩ := hlexeme other t' hbegins hother
          rw [hread] at hread'
          cases hread'
          have hlength := congrArg List.length heq
          simp only [List.length_append, List.length_cons, List.length_nil] at hlength ⊢
          omega
      exact .taken htime hlongest (by simp)
  | invalidEscape sequence place rest =>
      refine .refused htime (hnone (by simp [hread])) ?_
      intro c hc
      cases hc
      exact ⟨fun h => absurd hq h, fun _ => Or.inr ⟨_, rfl⟩⟩
  | unclosed =>
      refine .refused htime (hnone (by simp [hread])) ?_
      intro c hc
      cases hc
      exact ⟨fun h => absurd hq h, fun _ => Or.inl rfl⟩

theorem munches_word {c : Char} (hc : isWordStart c = true) (tail : List Char) :
    Munches (c :: tail) (Scan.word (c :: tail)) := by
  have hword : IsWord ((c :: tail).takeWhile isWordChar) := by
    rw [List.takeWhile_cons_of_pos (Text.isWordChar_of_isWordStart hc)]
    exact ⟨hc, fun d hd => List.all_eq_true.1 List.all_takeWhile d hd⟩
  have htime : ¬ Mistimed (c :: tail) := by
    intro h
    have hdigit := Text.not_isWordStart_of_isDigit h.isDigit
    rw [hc] at hdigit
    contradiction
  refine .taken htime ⟨List.takeWhile_prefix _, hword.lexeme, ?_⟩ List.takeWhile_append_dropWhile
  intro other t' hbegins hother
  obtain ⟨other', rfl, -⟩ := exists_cons_of_prefix hbegins hother.ne_nil
  have hword' := ((Lexeme.byFirst_word_iff hc).1 hother.byFirst).1
  exact length_le_takeWhile hbegins hword'.isWordChar

/-- What a lexeme at the start of a text that begins with a digit can be. -/
theorem lexeme_of_isDigit {c : Char} (hc : c.isDigit = true) {front tail : List Char} {t : Token}
    (hbegins : front <+: c :: tail) (h : Lexeme front t) :
    (∃ value, NumberText front value) ∨ ∃ reading, TimeText front reading := by
  obtain ⟨front', rfl, -⟩ := exists_cons_of_prefix hbegins h.ne_nil
  rcases (Lexeme.byFirst_digit_iff hc).1 h.byFirst with ⟨value, hnumber, -⟩ | ⟨i, htime, -⟩
  · exact Or.inl ⟨value, hnumber⟩
  · exact Or.inr ⟨_, htime.timeText⟩

theorem munches_time {text lexeme rest : List Char} {c : Char} {tail : List Char}
    (htext : text = c :: tail) (hc : c.isDigit = true)
    (h : Scan.timeLexeme? text = some (lexeme, rest)) :
    Munches text (Scan.timeOrNumber text) := by
  obtain ⟨happend, -⟩ := Scan.timeLexeme?_front h
  obtain ⟨clock, fraction, f, nanos, rfl, hclock, hfraction⟩ := Scan.timeLexeme?_fields h
  have hshape : clock <+: text := ⟨fraction ++ rest, by rw [← List.append_assoc, happend]⟩
  rw [Scan.timeOrNumber, h]
  dsimp only
  cases hinstant : Scan.instantOf? (clock ++ fraction) with
  | some i =>
      have htime := Scan.instantText_of_instantOf? hclock hfraction hinstant
      have hlongest : LongestLexeme text (clock ++ fraction) (.time i) := by
        refine ⟨⟨rest, happend⟩, .time htime, ?_⟩
        intro other t' hbegins hother
        rw [htext] at hbegins
        rcases lexeme_of_isDigit hc hbegins hother with ⟨value, hnumber⟩ | ⟨reading, htime'⟩
        · have hle := hnumber.length_le hbegins
          rw [← htext, ← happend, List.append_assoc, hclock.numberLexeme_length] at hle
          have hlength := hclock.length_eq
          rw [List.length_append]
          omega
        · cases htime' with
          | time hclock' hfraction' =>
              rw [← htext] at hbegins
              obtain ⟨more, rfl⟩ := hbegins
              obtain ⟨lexeme', rest', heq, hle⟩ :=
                Scan.exists_timeLexeme? hclock' hfraction' more
              rw [h] at heq
              cases heq
              exact hle
      refine .taken ?_ hlongest happend
      intro hmistimed
      exact hmistimed.2 _ _ ⟨rest, happend⟩ htime.timeText
  | none =>
      refine .mistimed ⟨⟨clock, f, hshape, hclock⟩, ?_⟩ ⟨rest, happend⟩
      intro front reading hbegins htime
      cases htime with
      | @time clock' fraction' f' date nanos' hclock' hfraction' hdate hrange =>
          have hshape' : clock' <+: text := (List.prefix_append ..).trans hbegins
          obtain rfl := hclock.unique hclock' hshape hshape'
          obtain ⟨i, hi, -⟩ := (TimeText.time hclock hfraction hdate hrange).exists_instantText
          rw [hi.instantOf?] at hinstant
          contradiction

theorem munches_timeOrNumber {c : Char} (hc : c.isDigit = true) (tail : List Char) :
    Munches (c :: tail) (Scan.timeOrNumber (c :: tail)) := by
  cases htime : Scan.timeLexeme? (c :: tail) with
  | some parts => exact munches_time rfl hc htime
  | none =>
      have hshape : ∀ clock f, clock <+: c :: tail → ¬ ShowsFields clock f := by
        rintro clock f ⟨rest, hbegins⟩ hclock
        obtain ⟨lexeme, rest', hsome, -⟩ := Scan.exists_timeLexeme? hclock .none rest
        rw [List.append_nil, hbegins, htime] at hsome
        contradiction
      obtain ⟨value, hnumber⟩ := exists_numberText c hc tail
      obtain ⟨happend, -⟩ := Scan.numberLexeme_front (c :: tail)
      have hlongest : LongestLexeme (c :: tail) (Scan.numberLexeme (c :: tail)).1
          (.number value) := by
        refine ⟨⟨_, happend⟩, .number hnumber, ?_⟩
        intro other t' hbegins hother
        rcases lexeme_of_isDigit hc hbegins hother with ⟨value', hnumber'⟩ | ⟨reading, htext⟩
        · exact hnumber'.length_le hbegins
        · obtain ⟨clock, fraction, f, rfl, hclock⟩ := htext.exists_fields
          exact absurd hclock (hshape clock f ((List.prefix_append ..).trans hbegins))
      rw [Scan.timeOrNumber, htime]
      dsimp only
      rw [Scan.number]
      dsimp only
      rw [hnumber.ofText?]
      refine .taken ?_ hlongest happend
      rintro ⟨⟨clock, f, hbegins, hclock⟩, -⟩
      exact hshape clock f hbegins hclock

/-- No symbol at the start of a text is longer than the one that is found. -/
theorem exists_leadingSymbol? {c : Char} {tail : List Char} {s : Symbol}
    (h : s.text.toList <+: c :: tail) :
    ∃ s' rest, Scan.leadingSymbol? c tail = some (s', rest) ∧
      s.text.toList.length ≤ s'.text.toList.length := by
  have hlength : ∀ s ∈ Symbol.all, 1 ≤ s.text.toList.length ∧ s.text.toList.length ≤ 2 := by
    decide
  have hsymbol := Symbol.ofText?_text s
  have hs := hlength s s.mem_all
  obtain ⟨rest, hrest⟩ := h
  generalize hchars : s.text.toList = chars at *
  match chars with
  | [d] =>
      simp only [List.cons_append, List.nil_append, List.cons.injEq] at hrest
      obtain ⟨rfl, -⟩ := hrest
      cases tail with
      | nil => exact ⟨s, [], by simp [Scan.leadingSymbol?, hsymbol], Nat.le_of_eq (by rw [hchars])⟩
      | cons e tail =>
          cases hpair : Symbol.ofText? [d, e] with
          | some s' =>
              refine ⟨s', tail, by simp [Scan.leadingSymbol?, hpair], ?_⟩
              exact (hlength s' s'.mem_all).1
          | none =>
              exact ⟨s, e :: tail, by simp [Scan.leadingSymbol?, hpair, hsymbol],
                Nat.le_of_eq (by rw [hchars])⟩
  | [d, e] =>
      cases hrest
      exact ⟨s, rest, by simp [Scan.leadingSymbol?, hsymbol], Nat.le_of_eq (by rw [hchars])⟩
  | [] | _ :: _ :: _ :: _ => simp at hs

theorem munches_symbol {c : Char} (hquote : ¬ IsQuote c) (hword : isWordStart c = false)
    (hdigit : c.isDigit = false) (tail : List Char) :
    Munches (c :: tail) (Scan.symbol c tail) := by
  have hquote' : ¬ (c = identQuote ∨ c = stringQuote) := hquote
  have htime : ¬ Mistimed (c :: tail) := by
    intro h
    rw [h.isDigit] at hdigit
    contradiction
  have hlexeme : ∀ front t, front <+: c :: tail → Lexeme front t →
      ∃ s rest, Scan.leadingSymbol? c tail = some (s, rest) ∧
        front.length ≤ s.text.toList.length := by
    intro front t hbegins hfront
    obtain ⟨front', rfl, -⟩ := exists_cons_of_prefix hbegins hfront.ne_nil
    obtain ⟨s, hs, -⟩ :=
      (Lexeme.byFirst_symbol_iff hquote' (by simp [hword]) (by simp [hdigit])).1 hfront.byFirst
    rw [← hs] at hbegins ⊢
    exact exists_leadingSymbol? hbegins
  unfold Scan.symbol
  cases hsymbol : Scan.leadingSymbol? c tail with
  | some pair =>
      obtain ⟨s, rest⟩ := pair
      have hrest := Scan.leadingSymbol?_front hsymbol
      refine .taken htime ⟨⟨rest, hrest⟩, .symbol s, ?_⟩ hrest
      intro other t' hbegins hother
      obtain ⟨s', rest', heq, hle⟩ := hlexeme other t' hbegins hother
      rw [hsymbol] at heq
      cases heq
      exact hle
  | none =>
      refine .refused htime ?_ ?_
      · intro front t hbegins hfront
        obtain ⟨s, rest, heq, -⟩ := hlexeme front t hbegins hfront
        rw [hsymbol] at heq
        contradiction
      · intro d hd
        cases hd
        exact ⟨fun _ => rfl, fun h => absurd h hquote⟩

/-! ## Any text -/

/-- A scan takes the longest lexeme, or fails for want of one. -/
theorem munches_lexeme {text : List Char} (hne : text ≠ []) : Munches text (Scan.lexeme text) := by
  obtain ⟨c, tail, rfl⟩ := List.exists_cons_of_ne_nil hne
  rw [Scan.lexeme]
  split
  next hquote => exact munches_quoted hquote tail
  next hquote =>
    split
    next hword => exact munches_word hword tail
    next hword =>
      split
      next hdigit => exact munches_timeOrNumber hdigit tail
      next hdigit =>
        exact munches_symbol hquote (by simpa using hword) (by simpa using hdigit) tail

theorem exists_longestLexeme {text front : List Char} {t : Token} (htime : ¬ Mistimed text)
    (hbegins : front <+: text) (h : Lexeme front t) : ∃ front t, LongestLexeme text front t := by
  have hne : text ≠ [] := by
    rintro rfl
    exact h.ne_nil (List.prefix_nil.1 hbegins)
  have hmunches := munches_lexeme hne
  generalize Scan.lexeme text = scan at hmunches
  cases hmunches with
  | mistimed hmistimed => exact absurd hmistimed htime
  | taken _ hlongest => exact ⟨_, _, hlongest⟩
  | refused _ hnone => exact absurd h (hnone front t hbegins)

theorem Munches.eq_of_longest {text front rest : List Char} {t : Token} {scan : Scan}
    (h : Munches text scan) (htime : ¬ Mistimed text) (hlongest : LongestLexeme text front t)
    (hrest : front ++ rest = text) : scan = ⟨.ok t, rest⟩ := by
  cases h with
  | mistimed hmistimed => exact absurd hmistimed htime
  | taken _ hlongest' hrest' =>
      obtain ⟨rfl, rfl⟩ := hlongest.unique hlongest'
      rw [List.append_cancel_left (hrest'.trans hrest.symm)]
  | refused _ hnone => exact absurd hlongest.lexeme (hnone _ _ hlongest.isPrefix)

theorem lexeme_eq_ok_iff {text rest : List Char} {t : Token} (hne : text ≠ []) :
    Scan.lexeme text = ⟨.ok t, rest⟩ ↔
      ¬ Mistimed text ∧ ∃ front, LongestLexeme text front t ∧ front ++ rest = text := by
  have hmunches := munches_lexeme hne
  constructor
  · intro h
    rw [h] at hmunches
    cases hmunches with
    | taken htime hlongest hrest => exact ⟨htime, _, hlongest, hrest⟩
  · rintro ⟨htime, front, hlongest, hrest⟩
    exact hmunches.eq_of_longest htime hlongest hrest

/-- A text that is cut behind its longest lexeme still has that longest lexeme. -/
theorem LongestLexeme.cut {front middle more : List Char} {t : Token}
    (h : LongestLexeme (front ++ middle ++ more) front t)
    (htime : ¬ Mistimed (front ++ middle ++ more)) :
    LongestLexeme (front ++ middle) front t ∧ ¬ Mistimed (front ++ middle) := by
  have hcut : front ++ middle <+: front ++ middle ++ more := List.prefix_append ..
  constructor
  · refine ⟨List.prefix_append .., h.lexeme, ?_⟩
    intro other t' hbegins hother
    exact h.length_le other t' (hbegins.trans hcut) hother
  · rintro ⟨⟨clock, f, hbegins, hclock⟩, hnone⟩
    refine htime ⟨⟨clock, f, hbegins.trans hcut, hclock⟩, ?_⟩
    intro other reading hbegins' hother
    obtain ⟨i, hi, -⟩ := hother.exists_instantText
    have hle := h.length_le other _ hbegins' (.time hi)
    have hfront : other <+: front := List.prefix_of_prefix_length_le hbegins' h.isPrefix hle
    exact hnone other reading (hfront.trans (List.prefix_append ..)) hother

/-! ## The lexer -/

theorem Misread.locate_drop (cause : LexCause) (source : List Char) (i : Nat) :
    locate source ⟨cause, source.drop i⟩ = ⟨cause, Position.after (source.take i)⟩ := by
  have hplace : source.take (source.length - (source.length - i)) = source.take i := by
    rw [List.take_eq_take_iff]
    omega
  rw [locate, List.length_drop, hplace]

namespace Lexer

/-- Where the next lexeme begins: behind the blanks at the cursor. -/
def start (lexer : Lexer) : Nat :=
  lexer.cursor + (lexer.rest.takeWhile isBlank).length

/-- The text from there on. -/
def ahead (lexer : Lexer) : List Char :=
  lexer.source.drop lexer.start

def startPosition (lexer : Lexer) : Position :=
  Position.after (lexer.source.take lexer.start)

theorem ahead_eq (lexer : Lexer) : lexer.ahead = lexer.rest.dropWhile isBlank := by
  rw [ahead, start, ← List.drop_drop, ← rest, Text.drop_length_takeWhile]

theorem nextToken_eq (lexer : Lexer) :
    lexer.nextToken =
      ((Scan.lexeme lexer.ahead).result.mapError (Misread.locate lexer.source),
        lexer.advance (Scan.lexeme lexer.ahead).rest) := by
  rw [ahead_eq]
  rfl

theorem cursor_advance {lexer : Lexer} {read rest : List Char} (h : read ++ rest = lexer.rest) :
    (lexer.advance rest).cursor = lexer.cursor + read.length := by
  rw [advance, ← h, List.length_append, Nat.add_sub_cancel]

theorem rest_advance {lexer : Lexer} {read rest : List Char} (h : read ++ rest = lexer.rest) :
    (lexer.advance rest).rest = rest := by
  have hrest : (lexer.advance rest).rest = lexer.rest.drop read.length := by
    rw [Lexer.rest, cursor_advance h, ← List.drop_drop]
    rfl
  rw [hrest, ← h, List.drop_left]

theorem advance_eq {lexer : Lexer} {front rest : List Char} (h : front ++ rest = lexer.ahead) :
    lexer.advance rest = { lexer with cursor := lexer.start + front.length } := by
  have hrest : lexer.rest.takeWhile isBlank ++ front ++ rest = lexer.rest := by
    rw [List.append_assoc, h, ahead_eq, List.takeWhile_append_dropWhile]
  have hcursor := cursor_advance hrest
  rw [List.length_append, ← Nat.add_assoc] at hcursor
  rw [start, ← hcursor]
  rfl

theorem locate_ahead (lexer : Lexer) (cause : LexCause) :
    Misread.locate lexer.source ⟨cause, lexer.ahead⟩ = ⟨cause, lexer.startPosition⟩ :=
  Misread.locate_drop ..

theorem nextToken_end {lexer : Lexer} (h : lexer.ahead = []) :
    lexer.nextToken = (.ok .endOfInput, { lexer with cursor := lexer.start }) := by
  have hempty : [] ++ [] = lexer.ahead := h.symm
  rw [nextToken_eq, h, Scan.lexeme, advance_eq hempty]
  rfl

theorem nextToken_of_longest {lexer : Lexer} (htime : ¬ Mistimed lexer.ahead) {front : List Char}
    {t : Token} (h : LongestLexeme lexer.ahead front t) :
    lexer.nextToken = (.ok t, { lexer with cursor := lexer.start + front.length }) := by
  obtain ⟨rest, hrest⟩ := h.isPrefix
  have hne : lexer.ahead ≠ [] := by
    rw [← hrest]
    simp [h.lexeme.ne_nil]
  rw [nextToken_eq, (lexeme_eq_ok_iff hne).2 ⟨htime, front, h, hrest⟩, advance_eq hrest]
  rfl

theorem nextToken_of_mistimed {lexer : Lexer} (h : Mistimed lexer.ahead) :
    ∃ shown : String, shown.toList <+: lexer.ahead ∧
      lexer.nextToken.1 = .error ⟨.invalidTime shown, lexer.startPosition⟩ := by
  have hne := h.ne_nil
  have hmunches := munches_lexeme hne
  rw [nextToken_eq]
  generalize Scan.lexeme lexer.ahead = scan at hmunches
  cases hmunches with
  | @mistimed shown _ hshown =>
      refine ⟨String.ofList shown, by rwa [String.toList_ofList], ?_⟩
      rw [← locate_ahead]
      rfl
  | taken htime => exact absurd h htime
  | refused htime => exact absurd h htime

theorem nextToken_of_no_lexeme {lexer : Lexer} (hne : lexer.ahead ≠ [])
    (htime : ¬ Mistimed lexer.ahead)
    (hnone : ∀ front t, front <+: lexer.ahead → ¬ Lexeme front t) :
    ∃ m, Refuses lexer.ahead m ∧ lexer.nextToken.1 = .error (m.locate lexer.source) := by
  have hmunches := munches_lexeme hne
  rw [nextToken_eq]
  generalize Scan.lexeme lexer.ahead = scan at hmunches
  cases hmunches with
  | mistimed h => exact absurd h htime
  | taken _ hlongest => exact absurd hlongest.lexeme (hnone _ _ hlongest.isPrefix)
  | refused _ _ hm => exact ⟨_, hm, rfl⟩

end Lexer

/-- The lexer skips blanks and takes the longest lexeme there.  Otherwise the text
there begins with the shape of a time that is none, or with no lexeme at all, and
the lexer says so at that place. -/
theorem nextToken_takes_longest_lexeme (lexer : Lexer) :
    (lexer.ahead = [] →
      lexer.nextToken = (.ok .endOfInput, { lexer with cursor := lexer.start })) ∧
    (Mistimed lexer.ahead →
      ∃ shown : String, shown.toList <+: lexer.ahead ∧
        lexer.nextToken.1 = .error ⟨.invalidTime shown, lexer.startPosition⟩) ∧
    (¬ Mistimed lexer.ahead →
      ((∃ front t, front <+: lexer.ahead ∧ Lexeme front t) →
        ∃ front t, LongestLexeme lexer.ahead front t) ∧
      (∀ front t, LongestLexeme lexer.ahead front t →
        lexer.nextToken = (.ok t, { lexer with cursor := lexer.start + front.length })) ∧
      ∀ c ∈ lexer.ahead.head?, (∀ front t, front <+: lexer.ahead → ¬ Lexeme front t) →
        (¬ IsQuote c →
          lexer.nextToken.1 = .error ⟨.unexpectedChar c, lexer.startPosition⟩) ∧
        (IsQuote c →
          lexer.nextToken.1 = .error
            ⟨if c = identQuote then .unterminatedIdent else .unterminatedString,
              lexer.startPosition⟩ ∨
          ∃ sequence position,
            lexer.nextToken.1 = .error ⟨.invalidEscape sequence, position⟩)) := by
  refine ⟨Lexer.nextToken_end, Lexer.nextToken_of_mistimed, ?_⟩
  intro htime
  refine ⟨?_, ?_, ?_⟩
  · rintro ⟨front, t, hbegins, hfront⟩
    exact exists_longestLexeme htime hbegins hfront
  · intro front t hlongest
    exact Lexer.nextToken_of_longest htime hlongest
  · intro c hc hnone
    have hne : lexer.ahead ≠ [] := by
      intro hnil
      rw [hnil] at hc
      contradiction
    obtain ⟨m, hm, herror⟩ := Lexer.nextToken_of_no_lexeme hne htime hnone
    obtain ⟨hplain, hquoted⟩ := hm c hc
    constructor
    · intro hquote
      rw [herror, hplain hquote, Lexer.locate_ahead]
    · intro hquote
      rcases hquoted hquote with hopen | ⟨sequence, hsequence⟩
      · refine Or.inl ?_
        rw [herror, hopen, Lexer.locate_ahead]
      · refine Or.inr ⟨sequence, (m.locate lexer.source).position, ?_⟩
        rw [herror, Misread.locate, hsequence]

/-- A second point behind a number, a day that its month lacks, a lone mark on the
second line, and blanks before the end. -/
theorem nextToken_takes_longest_lexeme_at_points_dates_and_marks :
    (¬ Mistimed (Lexer.ahead ⟨"a  1.5.2".toList, 1⟩) ∧
      LongestLexeme (Lexer.ahead ⟨"a  1.5.2".toList, 1⟩) "1.5".toList
        (.number (.ofMagnitude? false (Magnitude.ofDecimal? 15 (-1)))) ∧
      Lexer.nextToken ⟨"a  1.5.2".toList, 1⟩ =
        (.ok (.number (.ofMagnitude? false (Magnitude.ofDecimal? 15 (-1)))),
          ⟨"a  1.5.2".toList, 6⟩)) ∧
    (Mistimed (Lexer.ahead ⟨"2021-02-30 03:04:05.5 x".toList, 0⟩) ∧
      ∃ shown : String, shown.toList <+: "2021-02-30 03:04:05.5 x".toList ∧
        (Lexer.nextToken ⟨"2021-02-30 03:04:05.5 x".toList, 0⟩).1 =
          .error ⟨.invalidTime shown, ⟨1, 1⟩⟩) ∧
    (¬ Mistimed (Lexer.ahead ⟨"a\n !b".toList, 1⟩) ∧
      (∀ front t, front <+: Lexer.ahead ⟨"a\n !b".toList, 1⟩ → ¬ Lexeme front t) ∧
      (Lexer.nextToken ⟨"a\n !b".toList, 1⟩).1 = .error ⟨.unexpectedChar '!', ⟨2, 2⟩⟩) ∧
    Lexer.ahead ⟨"a \t".toList, 1⟩ = [] ∧
      Lexer.nextToken ⟨"a \t".toList, 1⟩ = (.ok .endOfInput, ⟨"a \t".toList, 3⟩) := by
  have hpoints : Lexer.ahead ⟨"a  1.5.2".toList, 1⟩ = ['1', '.', '5', '.', '2'] := by decide
  have hmark : Lexer.ahead ⟨"a\n !b".toList, 1⟩ = ['!', 'b'] := by decide
  have hclock : ShowsFields _ ⟨2021, 2, 30, 3, 4, 5⟩ := .fields
    (⟨rfl, by decide, rfl⟩ : IsField 4 2021 ['2', '0', '2', '1'])
    (⟨rfl, by decide, rfl⟩ : IsField 2 2 ['0', '2'])
    (⟨rfl, by decide, rfl⟩ : IsField 2 30 ['3', '0'])
    (⟨rfl, by decide, rfl⟩ : IsField 2 3 ['0', '3'])
    (⟨rfl, by decide, rfl⟩ : IsField 2 4 ['0', '4'])
    (⟨rfl, by decide, rfl⟩ : IsField 2 5 ['0', '5'])
  have hnumber : NumberText (['1'] ++ '.' :: ['5']) _ :=
    .point (by decide) (by decide) (by decide) (by decide)
  have htimely : ¬ Mistimed (Lexer.ahead ⟨"a  1.5.2".toList, 1⟩) := by
    intro h
    exact absurd h.le_length (by rw [hpoints]; decide)
  have hlongest : LongestLexeme (Lexer.ahead ⟨"a  1.5.2".toList, 1⟩) "1.5".toList
      (.number (.ofMagnitude? false (Magnitude.ofDecimal? 15 (-1)))) := by
    rw [hpoints]
    refine ⟨by decide, .number hnumber, ?_⟩
    intro other t' hbegins hother
    rcases lexeme_of_isDigit (by decide) hbegins hother with ⟨value, hother⟩ | ⟨_, hother⟩
    · exact hother.length_le hbegins
    · exact absurd (Nat.le_trans hother.le_length hbegins.length_le) (by decide)
  have hmistimed : Mistimed (Lexer.ahead ⟨"2021-02-30 03:04:05.5 x".toList, 0⟩) := by
    have hshape : "2021-02-30 03:04:05".toList <+:
        Lexer.ahead ⟨"2021-02-30 03:04:05.5 x".toList, 0⟩ := by decide
    refine ⟨⟨_, _, hshape, hclock⟩, ?_⟩
    intro front c hbegins htime
    cases htime with
    | time hclock' _ hreal _ =>
        have hbegins' := (List.prefix_append ..).trans hbegins
        obtain rfl := hclock.unique hclock' hshape hbegins'
        contradiction
  have hplain : ¬ IsQuote '!' := by
    rintro (h | h)
    · contradiction
    · contradiction
  have htimely' : ¬ Mistimed (Lexer.ahead ⟨"a\n !b".toList, 1⟩) := by
    intro h
    exact absurd h.le_length (by rw [hmark]; decide)
  have hnone : ∀ front t, front <+: Lexer.ahead ⟨"a\n !b".toList, 1⟩ → ¬ Lexeme front t := by
    intro front t hbegins hfront
    rw [hmark] at hbegins
    obtain ⟨front', rfl, -⟩ := exists_cons_of_prefix hbegins hfront.ne_nil
    obtain ⟨s, hs, -⟩ := hfront.byFirst
    rw [← hs] at hbegins
    obtain ⟨s', rest, hsymbol, -⟩ := exists_leadingSymbol? hbegins
    contradiction
  refine ⟨⟨htimely, hlongest, ?_⟩, ⟨hmistimed, ?_⟩, ⟨htimely', hnone, ?_⟩, rfl, ?_⟩
  · exact ((nextToken_takes_longest_lexeme _).2.2 htimely).2.1 _ _ hlongest
  · exact (nextToken_takes_longest_lexeme ⟨"2021-02-30 03:04:05.5 x".toList, 0⟩).2.1 hmistimed
  · exact (((nextToken_takes_longest_lexeme _).2.2 htimely').2.2 '!' (by decide) hnone).1 hplain
  · exact (nextToken_takes_longest_lexeme _).1 rfl

end FilterLang
