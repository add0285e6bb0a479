import FilterLang.Proofs.ShortestNumbers
import FilterLang.Proofs.Tilings

/-!
# Displayed tokens are read back

Tokens are displayed by their canonical texts with a blank between any two.  No
token reaches over the blank: behind a time the blank ends its seconds, and behind
a number of four digits it is no dash.  So the tokens are read back one by one,
numbers by their shortest digits.  Times are displayed to the millisecond, so the
rest of a second is lost, but only once.
-/

namespace FilterLang

-- Powers of natural numbers are `Nat.pow`, whatever else is in scope.
attribute [local instance (high)] instPowNat

-- What holds of each character of a list is decided along the list.
attribute [local instance (high)] List.decidableBAll

/-! ## Numbers -/

/-- Wherever the point falls among the digits, the text has their value. -/
theorem Digits.numberText_positionalText {d : Digits} (hne : d.digits ≠ [])
    (hdigits : ∀ c ∈ d.digits, c.isDigit = true) :
    NumberText (d.positionalText false) (.ofMagnitude? false d.nearest?) := by
  have hzeros : ∀ n : Nat, ∀ c ∈ List.replicate n '0', c.isDigit = true := by
    intro n c hc
    rw [(List.mem_replicate.1 hc).2]
    rfl
  have hlength := List.length_pos_iff.2 hne
  unfold positionalText
  split
  next hsmall =>
    have hfraction : ∀ c ∈ List.replicate (-d.point).toNat '0' ++ d.digits, c.isDigit = true :=
      List.forall_mem_append.2 ⟨hzeros _, hdigits⟩
    have htext : NumberText
        (['0'] ++ '.' :: (List.replicate (-d.point).toNat '0' ++ d.digits)) _ :=
      .point (by decide) (List.append_ne_nil_of_right_ne_nil _ hne) (by decide) hfraction
    have hvalue : Nat.ofDigitChars 10
        (['0'] ++ (List.replicate (-d.point).toNat '0' ++ d.digits)) 0 =
          Nat.ofDigitChars 10 d.digits 0 := by
      rw [← List.append_assoc, ← List.replicate_one, List.replicate_append_replicate,
        Nat.ofDigitChars_append, Nat.ofDigitChars_replicate_zero, Nat.mul_zero]
    have hexponent : -((List.replicate (-d.point).toNat '0' ++ d.digits).length : Int) =
        d.point - d.digits.length := by
      rw [List.length_append, List.length_replicate]
      omega
    rwa [hvalue, hexponent] at htext
  next hlarge =>
    split
    next hwhole =>
      have htext : NumberText
          (d.digits ++ List.replicate (d.point.toNat - d.digits.length) '0') _ :=
        .whole (List.append_ne_nil_of_left_ne_nil hne _)
          (List.forall_mem_append.2 ⟨hdigits, hzeros _⟩)
      have hexponent : d.point - d.digits.length -
          (d.point.toNat - d.digits.length : Nat) = 0 := by
        omega
      rw [Nat.ofDigitChars_append, Nat.ofDigitChars_replicate_zero, Nat.mul_comm, ← hexponent,
        Magnitude.ofDecimal?_mul_pow] at htext
      simpa [nearest?] using htext
    next hpoint =>
      have hfront : d.digits.take d.point.toNat ≠ [] := by
        intro hnil
        have hshort := congrArg List.length hnil
        rw [List.length_take, List.length_nil] at hshort
        omega
      have hback : d.digits.drop d.point.toNat ≠ [] := by
        intro hnil
        have hshort := congrArg List.length hnil
        rw [List.length_drop, List.length_nil] at hshort
        omega
      have htext : NumberText
          (d.digits.take d.point.toNat ++ '.' :: d.digits.drop d.point.toNat) _ :=
        .point hfront hback (fun c hc => hdigits c (List.mem_of_mem_take hc))
          (fun c hc => hdigits c (List.mem_of_mem_drop hc))
      have hexponent : -((d.digits.drop d.point.toNat).length : Int) =
          d.point - d.digits.length := by
        rw [List.length_drop]
        omega
      rw [List.take_append_drop, hexponent] at htext
      rwa [List.append_assoc]

theorem Magnitude.numberText_text (magnitude : Magnitude) :
    NumberText (magnitude.text Token.numberStyle) (.finite false magnitude) := by
  by_cases hunits : magnitude.units = 0
  · have htext : NumberText ['0'] _ := .whole (by decide) (by decide)
    have hvalue : Nat.ofDigitChars 10 ['0'] 0 = 0 := by decide
    rw [hvalue, ofDecimal?_zero_eq_some_iff.2 hunits, Binary64.ofMagnitude?] at htext
    simpa [text, hunits, Token.numberStyle] using htext
  · have hdigits : Digits.Leading (magnitude.digits .up).digits := leading_digits hunits
    have htext := Digits.numberText_positionalText hdigits.ne_nil hdigits.isDigit
    rw [nearest?_digits, Binary64.ofMagnitude?] at htext
    simpa only [text, hunits, Token.numberStyle, if_true, if_false] using htext

namespace Scan

theorem next_numberText {text rest : List Char} {value : Binary64} (h : NumberText text value)
    (hrest : ∀ c ∈ rest.head?,
      c.isDigit = false ∧ c ≠ '.' ∧ (text.length = 4 → c ≠ '-')) :
    next (text ++ rest) = ⟨.ok (.number value), rest⟩ := by
  have hdigit : ∀ c ∈ rest.head?, c.isDigit = false := fun c hc => (hrest c hc).1
  cases h with
  | whole hne hdigits =>
      have hread := (NumberText.whole hne hdigits).ofText?
      have htime : timeLexeme? (text ++ rest) = none :=
        timeLexeme?_eq_none hdigits fun c hc => ⟨(hrest c hc).1, (hrest c hc).2.2⟩
      have hlexeme : numberLexeme (text ++ rest) = (text, rest) := by
        obtain ⟨htake, hdrop⟩ := Text.takeWhile_isDigit hdigits hdigit
        unfold numberLexeme
        rw [htake, hdrop]
        split
        next c tail => exact absurd rfl (hrest '.' rfl).2.1
        next => rfl
      obtain ⟨c, tail, rfl⟩ := List.exists_cons_of_ne_nil hne
      exact next_number (hdigits c (List.mem_cons_self ..)) htime hlexeme hread
  | point hne hne' hwhole hfraction => exact next_point hwhole hfraction hne hne' hdigit

end Scan

/-! ## Tokens -/

namespace Token

/-- Tokens that a text can hold: no number is signed, infinite or NaN, and no year
has more than four digits. -/
def Displayable : Token → Prop
  | number value => ∃ magnitude, value = .finite false magnitude
  | time instant => instant.InFourDigitYears
  | endOfInput => False
  | _ => True

/-- The token with a time cut to whole milliseconds. -/
def toMillis : Token → Token
  | time instant => time instant.toMillis
  | t => t

/-- The token with a time as calendar and clock show it. -/
def shown : Token → Token
  | time instant => time instant.shown
  | t => t

theorem toMillis_ne_end {t : Token} (h : t.Displayable) : t.toMillis ≠ .endOfInput := by
  cases t with
  | endOfInput => cases h
  | _ => exact fun heq => nomatch heq

theorem toMillis_toMillis (t : Token) : t.toMillis.toMillis = t.toMillis := by
  cases t with
  | time instant =>
      simp only [toMillis, Calendar.Instant.toMillis, time.injEq, Calendar.Instant.mk.injEq,
        true_and]
      omega
  | _ => rfl

theorem displayable_toMillis {t : Token} (h : t.Displayable) : t.toMillis.Displayable := by
  cases t with
  | time instant =>
      have hyear : instant.toMillis.InFourDigitYears := by
        rw [Calendar.Instant.InFourDigitYears, Calendar.Instant.civil_toMillis]
        exact h
      exact hyear
  | _ => exact h

theorem displayable_shown {t : Token} (h : t.Displayable) : t.shown.Displayable := by
  cases t with
  | time instant =>
      have hyear : instant.shown.InFourDigitYears := by
        rw [Calendar.Instant.InFourDigitYears, instant.civil_shown (Int.zero_emod 60)]
        exact h
      exact hyear
  | _ => exact h

theorem shown_toMillis (t : Token) : t.toMillis.shown = t.shown.toMillis := by
  cases t with
  | time instant => exact congrArg time instant.shown_toMillis
  | _ => rfl

/-- A displayed token in front of a blank, or at the end. -/
theorem next_text {t : Token} (h : t.Displayable) {rest : List Char}
    (hrest : ∀ c ∈ rest.head?, c = ' ') :
    Scan.next (t.text ++ rest) = ⟨.ok t.shown.toMillis, rest⟩ := by
  have hblank : ∀ {P : Char → Prop}, P ' ' → ∀ c ∈ rest.head?, P c := by
    intro P hP c hc
    rwa [hrest c hc]
  have hword : Text.startsInWord rest = false := by
    cases rest with
    | nil => rfl
    | cons c tail =>
        obtain rfl := hrest c rfl
        rfl
  cases t with
  | ident name => exact Scan.next_identText name fun _ => hword
  | string value => exact Scan.next_stringText value rest
  | number value =>
      obtain ⟨magnitude, rfl⟩ := h
      exact Scan.next_numberText magnitude.numberText_text
        (hblank ⟨rfl, by decide, fun _ => by decide⟩)
  | time instant => exact Scan.next_instantText instant h hword (hblank (by decide))
  | keyword k => exact Scan.next_keyword k hword
  | symbol s => exact Scan.next_symbol s (hblank (by decide))
  | endOfInput => cases h

theorem scanAll_text {t : Token} (h : t.Displayable) {rest : List Char}
    (hrest : ∀ c ∈ rest.head?, c = ' ') :
    scanAll (t.text ++ rest) = (scanAll rest).map (t.shown.toMillis :: ·) :=
  scanAll_of_next (next_text h hrest) (toMillis_ne_end (displayable_shown h))

end Token

/-! ## Streams of tokens -/

/-- The canonical texts of tokens with a blank between any two. -/
def displayed (tokens : List Token) : String :=
  " ".intercalate (tokens.map fun t => String.ofList t.text)

theorem toList_displayed (tokens : List Token) :
    (displayed tokens).toList = [' '].intercalate (tokens.map Token.text) := by
  rw [displayed, String.toList_intercalate, List.map_map]
  simp [Function.comp_def]

theorem scanAll_intercalate {tokens : List Token} (h : ∀ t ∈ tokens, t.Displayable) :
    scanAll ([' '].intercalate (tokens.map Token.text)) =
      .ok (tokens.map fun t => t.shown.toMillis) := by
  induction tokens with
  | nil => exact scanAll_blanks (List.forall_mem_nil _)
  | cons t tokens ih =>
      rw [List.forall_mem_cons] at h
      have hlater := ih h.2
      cases tokens with
      | nil =>
          have hend : ∀ c ∈ ([] : List Char).head?, c = ' ' := by simp
          rw [List.map_cons, List.map_nil, List.intercalate_singleton, ← List.append_nil t.text,
            Token.scanAll_text h.1 hend, scanAll_blanks (List.forall_mem_nil _)]
          rfl
      | cons t' tokens =>
          have hblank : ∀ c ∈ (' ' :: [' '].intercalate ((t' :: tokens).map Token.text)).head?,
              c = ' ' := by
            simp
          have hskip : scanAll (' ' :: [' '].intercalate ((t' :: tokens).map Token.text)) =
              scanAll ([' '].intercalate ((t' :: tokens).map Token.text)) :=
            scanAll_congr rfl
          rw [List.map_cons, List.map_cons, List.intercalate_cons_cons, ← List.map_cons,
            List.append_assoc, List.singleton_append, Token.scanAll_text h.1 hblank, hskip, hlater]
          rfl

theorem Lexeme.displayable {text : List Char} {t : Token} (h : Lexeme text t)
    (hfinite : ∀ negative, t ≠ .number (.infinite negative)) : t.Displayable := by
  cases h with
  | @number _ value htext =>
      have hvalue : ∃ rounded, value = .ofMagnitude? false rounded := by
        cases htext with
        | _ => exact ⟨_, rfl⟩
      obtain ⟨rounded, rfl⟩ := hvalue
      cases rounded with
      | none => exact absurd rfl (hfinite false)
      | some magnitude => exact ⟨magnitude, rfl⟩
  | time htime => exact htime.timeText.year_mem
  | _ => trivial

/-- A time that a text can hold is the one that its reading shows. -/
theorem Lexeme.shown_eq {text : List Char} {t : Token} (h : Lexeme text t) : t.shown = t := by
  cases h with
  | @time _ instant htime =>
      exact congrArg Token.time (instant.shown_eq_self_iff.2 htime.leapEndsMinute)
  | _ => rfl

theorem Takes.exists_lexeme {read rest : List Char} {tokens : List Token}
    (h : Takes read tokens rest) : ∀ t ∈ tokens, ∃ text, Lexeme text t := by
  induction h with
  | nil => simp
  | cons _ hfront _ ih => exact List.forall_mem_cons.2 ⟨⟨_, hfront.longest.lexeme⟩, ih⟩

theorem exists_lexeme_of_tokenize {text : String} {tokens : List Token}
    (h : tokenize text = .ok tokens) {t : Token} (ht : t ∈ tokens) :
    ∃ lexeme, Lexeme lexeme t := by
  obtain ⟨read, blanks, htakes, -, -⟩ := exists_takes_of_scanAll (tokenize_eq_ok_iff.1 h)
  exact htakes.exists_lexeme t ht

theorem displayable_of_tokenize {text : String} {tokens : List Token}
    (h : tokenize text = .ok tokens) {t : Token} (ht : t ∈ tokens)
    (hfinite : ∀ negative, t ≠ .number (.infinite negative)) : t.Displayable := by
  obtain ⟨lexeme, hlexeme⟩ := exists_lexeme_of_tokenize h ht
  exact hlexeme.displayable hfinite

theorem shown_of_tokenize {text : String} {tokens : List Token}
    (h : tokenize text = .ok tokens) {t : Token} (ht : t ∈ tokens) : t.shown = t := by
  obtain ⟨lexeme, hlexeme⟩ := exists_lexeme_of_tokenize h ht
  exact hlexeme.shown_eq

theorem tokenize_displayed {tokens : List Token} (h : ∀ t ∈ tokens, t.Displayable) :
    tokenize (displayed tokens) = .ok (tokens.map fun t => t.shown.toMillis) := by
  rw [tokenize_eq_ok_iff, toList_displayed, scanAll_intercalate h]

end FilterLang
