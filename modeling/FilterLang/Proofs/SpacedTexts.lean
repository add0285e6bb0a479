import FilterLang.Proofs.TimeLiterals
import FilterLang.Proofs.Tilings

/-!
# Texts with blanks between them

Two texts that are read as tokens, with blanks between them, are read as the tokens
of the one and then those of the other.  Of all lexemes outside quotes only a time
holds a blank, one space between its date and its clock.  So a lexeme could only
grow over the blanks if the text behind them began with a clock, and such a text is
not read at all, since no token begins with a colon.

Hence the blanks between the lexemes of a text may be exchanged for any others, as
long as some are left wherever there were some.
-/

namespace FilterLang

open Text (isBlank)
open Text.Quoted (IsQuote)

-- What holds of each character of a list or an option is decided along it.
attribute [local instance (high)] List.decidableBAll Option.decidableForallMem

theorem scanAll_skip {blanks : List Char} (hblanks : ∀ c ∈ blanks, isBlank c = true)
    (text : List Char) : scanAll (blanks ++ text) = scanAll text := by
  apply scanAll_congr
  rw [Scan.next, List.dropWhile_append_of_pos hblanks, ← Scan.next]

/-! ## Blanks in lexemes -/

theorem Text.isBlank_of_digits {digits : List Char} (h : ∀ c ∈ digits, c.isDigit = true) :
    ∀ c ∈ digits, isBlank c = false := by
  intro c hc
  exact Text.isBlank_of_isWordChar (Text.isWordChar_of_isDigit (h c hc))

/-- The one blank in the shape of a time, and the colon behind the hours. -/
theorem ShowsFields.exists_space {clock : List Char} {f : TimeFields} (h : ShowsFields clock f) :
    ∃ date hours later, clock = date ++ ' ' :: (hours ++ ':' :: later) ∧
      IsField 2 f.hour hours ∧ (∀ c ∈ date, isBlank c = false) ∧
      ∀ c ∈ hours ++ ':' :: later, isBlank c = false := by
  cases h with
  | @fields year month day hour minute second f hyear hmonth hday hhour hminute hsecond =>
      refine ⟨year ++ '-' :: (month ++ '-' :: day), hour, minute ++ ':' :: second, by simp,
        hhour, ?_, ?_⟩
      · simp only [List.forall_mem_append, List.forall_mem_cons]
        exact ⟨Text.isBlank_of_digits hyear.isDigit, rfl, Text.isBlank_of_digits hmonth.isDigit,
          rfl, Text.isBlank_of_digits hday.isDigit⟩
      · simp only [List.forall_mem_append, List.forall_mem_cons]
        exact ⟨Text.isBlank_of_digits hhour.isDigit, rfl, Text.isBlank_of_digits hminute.isDigit,
          rfl, Text.isBlank_of_digits hsecond.isDigit⟩

theorem SecondFraction.isBlank_eq_false {fraction : List Char} {nanos : Nat}
    (h : SecondFraction fraction nanos) : ∀ c ∈ fraction, isBlank c = false := by
  cases h with
  | none => simp
  | digits _ _ hdigits =>
      rw [List.forall_mem_cons]
      exact ⟨rfl, Text.isBlank_of_digits hdigits⟩

theorem NumberText.isBlank_eq_false {text : List Char} {value : Binary64}
    (h : NumberText text value) : ∀ c ∈ text, isBlank c = false := by
  cases h with
  | whole _ hdigits => exact Text.isBlank_of_digits hdigits
  | point _ _ hwhole hfraction =>
      rw [List.forall_mem_append, List.forall_mem_cons]
      exact ⟨Text.isBlank_of_digits hwhole, rfl, Text.isBlank_of_digits hfraction⟩

/-- Outside quotes only times hold blanks. -/
theorem Lexeme.isBlank_eq_false {c : Char} {tail : List Char} {t : Token}
    (h : Lexeme (c :: tail) t) (hquote : ¬ IsQuote c) (htime : ∀ i, t ≠ .time i) :
    ∀ d ∈ c :: tail, isBlank d = false := by
  have hword : ∀ {word : List Char}, IsWord word → ∀ d ∈ word, isBlank d = false := by
    intro word hword d hd
    exact Text.isBlank_of_isWordChar (hword.isWordChar d hd)
  generalize htext : c :: tail = text at h
  cases h with
  | symbol s =>
      have hall : ∀ s ∈ Symbol.all, ∀ d ∈ s.text.toList, isBlank d = false := by decide
      exact hall s s.mem_all
  | keyword hkeyword => exact hword hkeyword
  | name hname => exact hword hname
  | number hnumber => exact hnumber.isBlank_eq_false
  | time => exact absurd rfl (htime _)
  | quotedName =>
      cases htext
      exact absurd (Or.inl rfl) hquote
  | quotedString =>
      cases htext
      exact absurd (Or.inr rfl) hquote

/-- A text begins with one quoted form at most. -/
theorem Lexeme.eq_of_quoted {q : Char} (hq : IsQuote q) {tail front other text : List Char}
    {t t' : Token} (htext : text = q :: tail) (h : Lexeme front t) (h' : Lexeme other t')
    (hbegins : front <+: text) (hbegins' : other <+: text) : front = other := by
  obtain ⟨rest, hrest⟩ := hbegins
  obtain ⟨rest', hrest'⟩ := hbegins'
  obtain ⟨c, back, rfl⟩ := List.exists_cons_of_ne_nil h.ne_nil
  obtain ⟨c', back', rfl⟩ := List.exists_cons_of_ne_nil h'.ne_nil
  rw [htext, List.cons_append, List.cons.injEq] at hrest hrest'
  obtain ⟨rfl, hrest⟩ := hrest
  obtain ⟨rfl, hrest'⟩ := hrest'
  obtain ⟨items, value, rfl, hitems, -⟩ := (Lexeme.byFirst_quote_iff hq).1 h.byFirst
  obtain ⟨items', value', rfl, hitems', -⟩ := (Lexeme.byFirst_quote_iff hq).1 h'.byFirst
  rw [List.append_assoc, List.singleton_append] at hrest hrest'
  have hread := Text.Quoted.readBody_of_items hq hitems rest
  rw [hrest, ← hrest', Text.Quoted.readBody_of_items hq hitems' rest'] at hread
  cases hread
  rw [List.append_cancel_right (hrest.trans hrest'.symm)]

/-! ## What a text behind blanks cannot prolong -/

section

variable {text front middle blanks later : List Char} {tokens : List Token} {t : Token}

theorem scanAll_clock_error {value : Nat} {hours : List Char} (hhours : IsField 2 value hours)
    (rest : List Char) :
    scanAll (hours ++ ':' :: rest) = .error ⟨.unexpectedChar ':', ':' :: rest⟩ := by
  have hne : hours ≠ [] := by
    rintro rfl
    exact absurd hhours.length_eq (by decide)
  have hcolon : ∀ c ∈ (':' :: rest).head?,
      c.isDigit = false ∧ c ≠ '.' ∧ (hours.length = 4 → c ≠ '-') := by simp
  exact scanAll_error_of_next (Scan.next_numberText (.whole hne hhours.isDigit) hcolon) (by simp)
    (scanAll_colon rest)

theorem prefix_or_holds {c : Char} {rest : List Char} (h : front <+: text ++ c :: rest) :
    front <+: text ∨ ∃ beyond, front = text ++ c :: beyond ∧ beyond <+: rest := by
  obtain ⟨behind, hbehind⟩ := h
  rcases List.append_eq_append_iff.1 hbehind with ⟨more, rfl, -⟩ | ⟨beyond, rfl, hbeyond⟩
  · exact Or.inl (List.prefix_append ..)
  cases beyond with
  | nil => simp
  | cons d beyond =>
      rw [List.cons_append, List.cons.injEq] at hbeyond
      obtain ⟨rfl, hbeyond⟩ := hbeyond
      exact Or.inr ⟨beyond, rfl, behind, hbeyond.symm⟩

/-- A shape of a time that begins before the blanks ends before them. -/
theorem ShowsFields.prefix_of_spaced {clock : List Char} {f : TimeFields}
    (h : ShowsFields clock f) (hblanks : ∀ c ∈ blanks, isBlank c = true) (hne : blanks ≠ [])
    (hlater : scanAll later = .ok tokens) (hbegins : clock <+: text ++ (blanks ++ later)) :
    clock <+: text := by
  obtain ⟨c, blanks, rfl⟩ := List.exists_cons_of_ne_nil hne
  rw [List.forall_mem_cons] at hblanks
  rw [List.cons_append] at hbegins
  obtain ⟨date, hours, minutes, hsplit, hhours, hdate, hminutes⟩ := h.exists_space
  rcases prefix_or_holds hbegins with hbefore | ⟨beyond, rfl, hbeyond⟩
  · exact hbefore
  -- The blank that is reached is the space of the shape, and a clock stands behind it.
  have hdate' : c ∉ date := fun hc => by simp [hdate c hc] at hblanks
  have hminutes' : c ∉ hours ++ ':' :: minutes := fun hc => by
    simp [hminutes c hc] at hblanks
  obtain ⟨-, -, rfl⟩ := (List.append_cons_inj_of_notMem hdate' hminutes').1 hsplit.symm
  obtain ⟨behind, hbehind⟩ := hbeyond
  cases blanks with
  | nil =>
      rw [List.nil_append, List.append_assoc, List.cons_append] at hbehind
      rw [← hbehind, scanAll_clock_error hhours] at hlater
      contradiction
  | cons e blanks =>
      have he := hblanks.2 e (List.mem_cons_self ..)
      have hmem : e ∈ hours ++ ':' :: minutes := by
        cases hhead : hours ++ ':' :: minutes with
        | nil => simp at hhead
        | cons e' back =>
            rw [hhead, List.cons_append, List.cons_append, List.cons.injEq] at hbehind
            simp [hbehind.1]
      rw [hminutes e hmem] at he
      contradiction

theorem TimeText.prefix_of_spaced {time : List Char} {c : Calendar.Civil} (h : TimeText time c)
    (hblanks : ∀ c ∈ blanks, isBlank c = true) (hne : blanks ≠ [])
    (hlater : scanAll later = .ok tokens) (hbegins : time <+: text ++ (blanks ++ later)) :
    time <+: text := by
  obtain ⟨d, blanks, rfl⟩ := List.exists_cons_of_ne_nil hne
  cases h with
  | @time clock fraction f date nanos hclock hfraction =>
      have hshown := hclock.prefix_of_spaced hblanks hne hlater
        ((List.prefix_append ..).trans hbegins)
      obtain ⟨behind, rfl⟩ := hshown
      rw [List.append_assoc, List.prefix_append_right_inj] at hbegins
      rw [List.prefix_append_right_inj]
      rcases prefix_or_holds hbegins with hbefore | ⟨beyond, rfl, -⟩
      · exact hbefore
      · have hd := hfraction.isBlank_eq_false d (by simp)
        rw [hblanks d (List.mem_cons_self ..)] at hd
        contradiction

/-- No lexeme grows over blanks. -/
theorem Lexeme.prefix_of_spaced {c : Char} {tail : List Char} (h : Lexeme (c :: tail) t)
    (hquote : ¬ IsQuote c) (hblanks : ∀ c ∈ blanks, isBlank c = true) (hne : blanks ≠ [])
    (hlater : scanAll later = .ok tokens) (hbegins : c :: tail <+: text ++ (blanks ++ later)) :
    c :: tail <+: text := by
  by_cases htime : ∃ i, t = .time i
  · obtain ⟨i, rfl⟩ := htime
    generalize c :: tail = time at h hbegins
    cases h with
    | time htext => exact htext.timeText.prefix_of_spaced hblanks hne hlater hbegins
  · have hnone := h.isBlank_eq_false hquote fun i hi => htime ⟨i, hi⟩
    obtain ⟨d, blanks, rfl⟩ := List.exists_cons_of_ne_nil hne
    rcases prefix_or_holds hbegins with hbefore | ⟨beyond, hbeyond, -⟩
    · exact hbefore
    · have hd := hnone d (by simp [hbeyond])
      rw [hblanks d (List.mem_cons_self ..)] at hd
      contradiction

/-- A lexeme stands as it does where a text ends, if blanks and a text that is read
on its own follow there. -/
theorem Stands.spaced (h : Stands front t middle) (hblanks : ∀ c ∈ blanks, isBlank c = true)
    (hne : blanks ≠ []) (hlater : scanAll later = .ok tokens) :
    Stands front t (middle ++ (blanks ++ later)) := by
  have hcut : front ++ middle <+: front ++ (middle ++ (blanks ++ later)) := by
    rw [← List.append_assoc]
    exact List.prefix_append ..
  have hsplit : front ++ (middle ++ (blanks ++ later)) =
      front ++ middle ++ (blanks ++ later) := (List.append_assoc ..).symm
  refine ⟨h.notBlank, ⟨List.prefix_append .., h.longest.lexeme, ?_⟩, ?_⟩
  · intro other t' hbegins hother
    obtain ⟨c, tail, rfl⟩ := List.exists_cons_of_ne_nil hother.ne_nil
    by_cases hquote : IsQuote c
    · obtain ⟨rest, hrest⟩ := hbegins
      have hsame := Lexeme.eq_of_quoted hquote hrest.symm h.longest.lexeme hother
        (List.prefix_append ..) ⟨rest, hrest⟩
      rw [hsame]
    · rw [hsplit] at hbegins
      have hbefore := hother.prefix_of_spaced hquote hblanks hne hlater hbegins
      exact h.longest.length_le _ t' hbefore hother
  · rintro ⟨⟨clock, f, hbegins, hclock⟩, hnone⟩
    rw [hsplit] at hbegins
    have hbefore := hclock.prefix_of_spaced hblanks hne hlater hbegins
    refine h.timely ⟨⟨clock, f, hbefore, hclock⟩, ?_⟩
    intro time c htime
    exact hnone time c (htime.trans hcut)

end

theorem stands_of_next {front rest : List Char} {t : Token}
    (hhead : ∀ c ∈ front.head?, isBlank c = false)
    (h : Scan.next (front ++ rest) = ⟨.ok t, rest⟩) (ht : t ≠ .endOfInput) :
    Stands front t rest := by
  obtain ⟨blanks, front', hblanks, hsplit, hfront'⟩ := exists_stands h ht
  have hfront : blanks ++ front' = front := List.append_cancel_right hsplit
  cases blanks with
  | nil => rwa [← hfront]
  | cons c blanks =>
      have hc := hhead c (by simp [← hfront])
      rw [hblanks c (List.mem_cons_self ..)] at hc
      contradiction

/-! ## Joined texts -/

namespace Takes

variable {read rest blanks later : List Char} {tokens tokens' : List Token}

theorem scanAll_append (h : Takes read tokens rest) :
    scanAll (read ++ rest) = (scanAll rest).map (tokens ++ ·) := by
  induction h with
  | nil rest =>
      rw [List.nil_append]
      cases scanAll rest <;> rfl
  | @cons _ _ _ rest _ _ hblanks hfront _ ih =>
      rw [List.append_assoc, scanAll_of_next (hfront.next hblanks) hfront.ne_end, ih]
      cases scanAll rest <;> rfl

theorem spaced (h : Takes read tokens rest) (hblanks : ∀ c ∈ blanks, isBlank c = true)
    (hne : blanks ≠ []) (hlater : scanAll later = .ok tokens') :
    Takes read tokens (rest ++ (blanks ++ later)) := by
  induction h with
  | nil rest => exact .nil _
  | cons hgap hfront _ ih =>
      refine .cons hgap ?_ ih
      rw [← List.append_assoc]
      exact hfront.spaced hblanks hne hlater

end Takes

theorem scanAll_spaced {text blanks later : List Char} {tokens tokens' : List Token}
    (htext : scanAll text = .ok tokens) (hlater : scanAll later = .ok tokens')
    (hblanks : ∀ c ∈ blanks, isBlank c = true) (hne : blanks ≠ []) :
    scanAll (text ++ (blanks ++ later)) = .ok (tokens ++ tokens') := by
  obtain ⟨read, last, hread, hlast, rfl⟩ := exists_takes_of_scanAll htext
  have hspaced := hread.spaced hblanks hne hlater
  rw [List.append_assoc, hspaced.scanAll_append, scanAll_skip hlast, scanAll_skip hblanks, hlater]
  rfl

/-! ## Other blanks between the lexemes -/

/-- Two texts of the same lexemes with blanks before, between and behind them.
Lexemes that are parted in the first text are parted in the second. -/
inductive Respaced : List Char → List Char → Prop
  | blanks {blanks blanks' : List Char} (hblanks : ∀ c ∈ blanks, isBlank c = true)
      (hblanks' : ∀ c ∈ blanks', isBlank c = true) : Respaced blanks blanks'
  | lexeme {gap gap' front text text' : List Char} {t : Token}
      (hgap : ∀ c ∈ gap, isBlank c = true) (hgap' : ∀ c ∈ gap', isBlank c = true)
      (hparts : gap ≠ [] → gap' ≠ []) (hfront : Stands front t text)
      (hlater : Respaced text text') : Respaced (gap ++ front ++ text) (gap' ++ front ++ text')

namespace Respaced

variable {text text' : List Char}

theorem of_takes {read rest : List Char} {tokens : List Token} (h : Takes read tokens rest)
    (hrest : ∀ c ∈ rest, isBlank c = true) : Respaced (read ++ rest) (read ++ rest) := by
  induction h with
  | nil => exact .blanks hrest hrest
  | cons hblanks hfront _ ih =>
      rw [List.append_assoc]
      exact .lexeme hblanks hblanks id hfront (ih hrest)

/-- The second text is read as the first, and the two agree up to where the second
ends or has blanks in front of a text that is read on its own. -/
structure ReadsAlike (text text' : List Char) : Prop where
  reads : ∃ tokens, scanAll text = .ok tokens ∧ scanAll text' = .ok tokens
  agrees : ∃ common behind, text = common ++ behind ∧
    (text' = common ∨ ∃ blanks later tokens, text' = common ++ (blanks ++ later) ∧
      blanks ≠ [] ∧ (∀ c ∈ blanks, isBlank c = true) ∧ scanAll later = .ok tokens)

theorem readsAlike (h : Respaced text text') : ReadsAlike text text' := by
  induction h with
  | @blanks blanks blanks' hblanks hblanks' =>
      refine ⟨⟨[], scanAll_blanks hblanks, scanAll_blanks hblanks'⟩, [], blanks, rfl, ?_⟩
      by_cases hne : blanks' = []
      · exact Or.inl hne
      · refine Or.inr ⟨blanks', [], [], by simp, hne, hblanks', ?_⟩
        exact scanAll_blanks (List.forall_mem_nil _)
  | @lexeme gap gap' front text text' t hgap hgap' hparts hfront _ ih =>
      obtain ⟨⟨tokens, htext, htext'⟩, common, behind, rfl, hagrees⟩ := ih
      have hcommon : Stands front t common := hfront.cut
      have hfront' : Stands front t text' := by
        rcases hagrees with rfl | ⟨blanks, later, tokens', rfl, hne, hblanks, hlater⟩
        · exact hcommon
        · exact hcommon.spaced hblanks hne hlater
      have hread : ∀ {blanks rest : List Char}, (∀ c ∈ blanks, isBlank c = true) →
          Stands front t rest → scanAll rest = .ok tokens →
          scanAll (blanks ++ front ++ rest) = .ok (t :: tokens) := by
        intro blanks rest hblanks hstands hrest
        rw [scanAll_of_next (hstands.next hblanks) hstands.ne_end, hrest]
        rfl
      refine ⟨⟨t :: tokens, hread hgap hfront htext, hread hgap' hfront' htext'⟩, ?_⟩
      by_cases hne : gap' = []
      · obtain rfl : gap = [] := by
          by_contra hgapNe
          exact hparts hgapNe hne
        refine ⟨front ++ common, behind, by simp, ?_⟩
        rcases hagrees with rfl | ⟨blanks, later, tokens', rfl, hne', hblanks, hlater⟩
        · exact Or.inl (by simp [hne])
        · exact Or.inr ⟨blanks, later, tokens', by simp [hne], hne', hblanks, hlater⟩
      · have hlater := hread (List.forall_mem_nil _) hfront' htext'
        rw [List.nil_append] at hlater
        exact ⟨[], _, rfl, Or.inr ⟨gap', _, _, by simp, hne, hgap', hlater⟩⟩

end Respaced

/-- Blanks between two texts keep their tokens apart, and other blanks between the
lexemes of a text give the same tokens. -/
theorem blanks_only_part_tokens :
    (∀ (text blanks later : String) (tokens tokens' : List Token),
      tokenize text = .ok tokens → tokenize later = .ok tokens' →
      (∀ c ∈ blanks.toList, isBlank c = true) → blanks ≠ "" →
      tokenize (text ++ blanks ++ later) = .ok (tokens ++ tokens')) ∧
    ∀ (text : String) (tokens : List Token), tokenize text = .ok tokens →
      Respaced text.toList text.toList ∧
        ∀ text' : String, Respaced text.toList text'.toList → tokenize text' = .ok tokens := by
  constructor
  · intro text blanks later tokens tokens' htext hlater hblanks hne
    rw [tokenize_eq_ok_iff] at htext hlater ⊢
    rw [String.toList_append, String.toList_append, List.append_assoc]
    exact scanAll_spaced htext hlater hblanks (by simpa using hne)
  · intro text tokens htext
    rw [tokenize_eq_ok_iff] at htext
    constructor
    · obtain ⟨read, last, hread, hlast, hsplit⟩ := exists_takes_of_scanAll htext
      rw [← hsplit]
      exact .of_takes hread hlast
    · intro text' hrespaced
      obtain ⟨tokens', hsame, hsame'⟩ := hrespaced.readsAlike.reads
      rw [htext] at hsame
      cases hsame
      exact tokenize_eq_ok_iff.2 hsame'

/-- A symbol that would be prolonged without the blanks, and blanks inside a string
that stay while those around it change. -/
theorem blanks_only_part_tokens_of_a_comparison :
    (tokenize "x <" = .ok [.ident "x", .symbol .lt] ∧
      tokenize "=~'a  b'" = .ok [.symbol .eqRegex, .string "a  b"] ∧
      tokenize ("x <" ++ "\u2003\t" ++ "=~'a  b'") =
        .ok [.ident "x", .symbol .lt, .symbol .eqRegex, .string "a  b"]) ∧
    tokenize "x < =~'a  b'" =
        .ok [.ident "x", .symbol .lt, .symbol .eqRegex, .string "a  b"] ∧
      Respaced "x < =~'a  b'".toList " x\n<\u3000=~ 'a  b'".toList ∧
      tokenize " x\n<\u3000=~ 'a  b'" =
        .ok [.ident "x", .symbol .lt, .symbol .eqRegex, .string "a  b"] := by
  have hstring : Stands "'a  b'".toList (.string "a  b") [] :=
    stands_of_next (by decide) (Scan.next_stringText "a  b" []) (by decide)
  have hmatch : Stands "=~".toList (.symbol .eqRegex) "'a  b'".toList :=
    stands_of_next (by decide) rfl (by decide)
  have hless : Stands "<".toList (.symbol .lt) " =~'a  b'".toList :=
    stands_of_next (by decide) rfl (by decide)
  have hname : Stands "x".toList (.ident "x") " < =~'a  b'".toList :=
    stands_of_next (by decide) (Scan.next_identText "x" fun _ => rfl) (by decide)
  have hnone : ∀ c ∈ [], isBlank c = true := List.forall_mem_nil _
  have hspace : ∀ c ∈ [' '], isBlank c = true := by decide
  have hback : Takes "=~'a  b'".toList [.symbol .eqRegex, .string "a  b"] [] :=
    .cons hnone hmatch (.cons hnone hstring (.nil []))
  have hfront : Takes "x <".toList [.ident "x", .symbol .lt] " =~'a  b'".toList :=
    .cons hnone hname (.cons hspace hless (.nil _))
  have htext : tokenize "x <" = .ok [.ident "x", .symbol .lt] :=
    tokenize_eq_ok_iff.2 hfront.scanAll_read
  have hlater : tokenize "=~'a  b'" = .ok [.symbol .eqRegex, .string "a  b"] :=
    tokenize_eq_ok_iff.2 hback.scanAll_read
  have hjoined := blanks_only_part_tokens.1 "x <" " " "=~'a  b'" _ _ htext hlater hspace (by decide)
  have hrespaced : Respaced "x < =~'a  b'".toList " x\n<\u3000=~ 'a  b'".toList :=
    @Respaced.lexeme [] [' '] _ _ _ _ hnone hspace (by simp) hname
      (@Respaced.lexeme _ ['\n'] _ _ _ _ hspace (by decide) (by simp) hless
        (@Respaced.lexeme _ ['\u3000'] _ _ _ _ hspace (by decide) (by simp) hmatch
          (@Respaced.lexeme [] [' '] _ _ _ _ hnone hspace (by simp) hstring
            (.blanks hnone hnone))))
  refine ⟨⟨htext, hlater, ?_⟩, hjoined, hrespaced, ?_⟩
  · exact blanks_only_part_tokens.1 "x <" "\u2003\t" "=~'a  b'" _ _ htext hlater (by decide)
      (by decide)
  · exact (blanks_only_part_tokens.2 "x < =~'a  b'" _ hjoined).2 _ hrespaced

end FilterLang
