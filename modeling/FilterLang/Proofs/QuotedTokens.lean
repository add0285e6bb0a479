import FilterLang.Lexer.Basic
import FilterLang.Proofs.QuotedForms
import FilterLang.Token.Text

/-!
# Quoted names and strings as tokens

The lexer takes a written name or string off the front of any text as exactly
one token and stops at the first character behind it.  A name that stands
without quotes must not be followed by a character of a word; all other forms
delimit themselves.  A quoted form that has lost its end is never accepted.
-/

namespace FilterLang

namespace Text

def startsInWord (text : List Char) : Bool :=
  text.head?.any isWordChar

def endsInWord (text : List Char) : Bool :=
  text.getLast?.any isWordChar

theorem takeWhile_isWordChar {word rest : List Char}
    (hword : ∀ c ∈ word, isWordChar c = true) (hrest : startsInWord rest = false) :
    (word ++ rest).takeWhile isWordChar = word ∧
      (word ++ rest).dropWhile isWordChar = rest := by
  rw [List.takeWhile_append_of_pos hword, List.dropWhile_append_of_pos hword]
  cases rest with
  | nil => simp
  | cons c rest =>
      have hc : isWordChar c = false := by simpa [startsInWord] using hrest
      simp [hc]

theorem isWordStart_iff (c : Char) :
    isWordStart c = true ↔
      (65 ≤ c.toNat ∧ c.toNat ≤ 90) ∨ (97 ≤ c.toNat ∧ c.toNat ≤ 122) ∨ c.toNat = 95 := by
  have hunderscore : c = '_' ↔ c.toNat = 95 := by
    rw [← Char.toNat_inj]
    rfl
  have hn : c.toNat = c.val.toNat := rfl
  have hupper : 'A'.val.toNat = 65 ∧ 'Z'.val.toNat = 90 := ⟨rfl, rfl⟩
  have hlower : 'a'.val.toNat = 97 ∧ 'z'.val.toNat = 122 := ⟨rfl, rfl⟩
  have hletter : c.isAlpha = (decide (c.val ≥ 'A'.val ∧ c.val ≤ 'Z'.val) ||
      (decide (c.val ≥ 'a'.val) && decide (c.val ≤ 'z'.val))) := rfl
  simp only [isWordStart, hletter, Bool.or_eq_true, Bool.and_eq_true, decide_eq_true_eq,
    beq_iff_eq, hunderscore, UInt32.le_iff_toNat_le, ge_iff_le, hn]
  omega

/-- Words consist of ASCII letters, digits and underscores. -/
theorem isWordChar_iff (c : Char) :
    isWordChar c = true ↔ isWordStart c = true ∨ c.isDigit = true := by
  simp only [isWordChar, isWordStart, Char.isAlphanum, Bool.or_eq_true]
  constructor
  · rintro ((h | h) | h)
    · exact Or.inl (Or.inl h)
    · exact Or.inr h
    · exact Or.inl (Or.inr h)
  · rintro ((h | h) | h)
    · exact Or.inl (Or.inl h)
    · exact Or.inr h
    · exact Or.inl (Or.inr h)

theorem isBlank_iff (c : Char) :
    isBlank c = true ↔
      (9 ≤ c.toNat ∧ c.toNat ≤ 13) ∨ c.toNat = 32 ∨ c.toNat = 133 ∨ c.toNat = 160 ∨
        c.toNat = 5760 ∨ (8192 ≤ c.toNat ∧ c.toNat ≤ 8202) ∨ c.toNat = 8232 ∨
        c.toNat = 8233 ∨ c.toNat = 8239 ∨ c.toNat = 8287 ∨ c.toNat = 12288 := by
  simp only [isBlank, Bool.or_eq_true, Bool.and_eq_true, decide_eq_true_eq, beq_iff_eq]
  omega

theorem isBlank_of_isWordChar {c : Char} (hc : isWordChar c = true) : isBlank c = false := by
  have hzero : '0'.toNat = 48 := rfl
  have hnine : '9'.toNat = 57 := rfl
  rw [isWordChar_iff, isWordStart_iff, Char.isDigit_iff_toNat] at hc
  rw [Bool.eq_false_iff, ne_eq, isBlank_iff]
  omega

end Text

namespace Scan

open Text.Quoted (IsQuote identQuote stringQuote writeChar readBody)

theorem next_of_not_isBlank {c : Char} (hc : Text.isBlank c = false) (text : List Char) :
    next (c :: text) = lexeme (c :: text) := by
  unfold next
  rw [List.dropWhile_cons_of_neg (by simp [hc])]

theorem next_quote {q : Char} (hq : IsQuote q) (text : List Char) :
    next (q :: text) = quoted q text := by
  have hblank : Text.isBlank q = false := by
    rcases hq with rfl | rfl <;> decide
  have hquote : q = identQuote ∨ q = stringQuote := hq
  rw [next_of_not_isBlank hblank, lexeme, if_pos hquote]

theorem next_word {c : Char} (hc : Text.isWordStart c = true) (text : List Char) :
    next (c :: text) = word (c :: text) := by
  have hquote : ¬ (c = identQuote ∨ c = stringQuote) := by
    rintro (rfl | rfl) <;> exact absurd hc (by decide)
  have hblank := Text.isBlank_of_isWordChar (Text.isWordChar_of_isWordStart hc)
  rw [next_of_not_isBlank hblank, lexeme, if_neg hquote, if_pos hc]

theorem next_stringText (value : String) (rest : List Char) :
    next (Token.stringText value ++ rest) = ⟨.ok (.string value), rest⟩ := by
  have hq : IsQuote stringQuote := Or.inr rfl
  simp only [Token.stringText, Text.Quoted.write, List.cons_append, List.append_assoc,
    List.nil_append]
  rw [next_quote hq, quoted, Text.Quoted.readBody_written hq]
  simp only [String.ofList_toList]
  rfl

theorem next_quotedIdent (name : List Char) (rest : List Char) :
    next (Text.Quoted.write identQuote name ++ rest) =
      ⟨.ok (.ident (String.ofList name)), rest⟩ := by
  have hq : IsQuote identQuote := Or.inl rfl
  simp only [Text.Quoted.write, List.cons_append, List.append_assoc, List.nil_append]
  rw [next_quote hq, quoted, Text.Quoted.readBody_written hq]
  rfl

theorem next_wholeWord {c : Char} {tail rest : List Char}
    (hstart : Text.isWordStart c = true) (htail : ∀ d ∈ tail, Text.isWordChar d = true)
    (hrest : Text.startsInWord rest = false) :
    next (c :: tail ++ rest) = ⟨.ok (wordToken (c :: tail)), rest⟩ := by
  have hword : ∀ d ∈ c :: tail, Text.isWordChar d = true := by
    rw [List.forall_mem_cons]
    exact ⟨Text.isWordChar_of_isWordStart hstart, htail⟩
  obtain ⟨htake, hdrop⟩ := Text.takeWhile_isWordChar hword hrest
  rw [List.cons_append] at htake hdrop
  rw [List.cons_append, next_word hstart, word, htake, hdrop]

theorem next_bareIdent {name : String} (hname : isBareIdent name = true) {rest : List Char}
    (hrest : Text.startsInWord rest = false) :
    next (name.toList ++ rest) = ⟨.ok (.ident name), rest⟩ := by
  unfold isBareIdent at hname
  split at hname
  next => contradiction
  next c tail hlist =>
    simp only [Bool.and_eq_true, List.all_eq_true, Option.isNone_iff_eq_none] at hname
    obtain ⟨⟨hstart, htail⟩, hkeyword⟩ := hname
    rw [hlist, next_wholeWord hstart htail hrest, wordToken, hkeyword, ← hlist,
      String.ofList_toList]

theorem next_identText (name : String) {rest : List Char}
    (hrest : isBareIdent name = true → Text.startsInWord rest = false) :
    next (Token.identText name ++ rest) = ⟨.ok (.ident name), rest⟩ := by
  unfold Token.identText
  split
  next hbare => exact next_bareIdent hbare (hrest hbare)
  next => rw [next_quotedIdent, String.ofList_toList]

theorem next_cut {q : Char} (hq : IsQuote q) {value cut more : List Char}
    (hcut : cut ++ more = Text.Quoted.write q value) (hne : cut ≠ []) (hmore : more ≠ []) :
    ∃ m, (next cut).result = .error m := by
  cases cut with
  | nil => contradiction
  | cons c cut =>
      simp only [Text.Quoted.write, List.cons_append, List.cons.injEq] at hcut
      obtain ⟨rfl, hcut⟩ := hcut
      have hopen := Text.Quoted.readBody_ne_closed_of_prefix hq hcut hmore
      rw [next_quote hq, quoted]
      cases hread : readBody c cut with
      | closed value' rest => exact absurd hread (hopen value' rest)
      | invalidEscape sequence place rest => exact ⟨_, rfl⟩
      | unclosed => exact ⟨_, rfl⟩

end Scan

/-! ## The whole text -/

theorem mapError_eq_ok_iff {ε δ α : Type} {f : ε → δ} {x : Except ε α} {a : α} :
    x.mapError f = .ok a ↔ x = .ok a := by
  cases x with
  | ok b =>
      constructor
      · intro h
        cases h
        rfl
      · intro h
        cases h
        rfl
  | error e =>
      constructor
      · intro h
        cases h
      · intro h
        cases h

theorem tokenize_eq_ok_iff {text : String} {tokens : List Token} :
    tokenize text = .ok tokens ↔ scanAll text.toList = .ok tokens :=
  mapError_eq_ok_iff

theorem scanAll_of_error {text : List Char} {m : Misread}
    (h : (Scan.next text).result = .error m) : scanAll text = .error m := by
  rw [scanAll]
  split
  next m' h' =>
    rw [h] at h'
    cases h'
    rfl
  next t h' => simp [h] at h'

theorem scanAll_of_end {text : List Char}
    (h : (Scan.next text).result = .ok .endOfInput) : scanAll text = .ok [] := by
  rw [scanAll]
  split
  next m h' => simp [h] at h'
  next t h' =>
    rw [h] at h'
    cases h'
    rfl

theorem scanAll_of_next {text rest : List Char} {t : Token}
    (h : Scan.next text = ⟨.ok t, rest⟩) (hend : t ≠ .endOfInput) :
    scanAll text = (scanAll rest).map (t :: ·) := by
  rw [scanAll]
  split
  next m h' => simp [h] at h'
  next t' h' =>
    have htoken : t' = t := by simpa [h] using h'.symm
    subst htoken
    have hrest : (Scan.next text).rest = rest := by rw [h]
    rw [dif_neg hend]
    dsimp only
    rw [hrest]

theorem scanAll_congr {text text' : List Char} (h : Scan.next text = Scan.next text') :
    scanAll text = scanAll text' := by
  cases hresult : (Scan.next text').result with
  | error m =>
      rw [scanAll_of_error hresult]
      rw [← h] at hresult
      exact scanAll_of_error hresult
  | ok t =>
      by_cases hend : t = .endOfInput
      · subst hend
        rw [scanAll_of_end hresult]
        rw [← h] at hresult
        exact scanAll_of_end hresult
      · have hnext : Scan.next text' = ⟨.ok t, (Scan.next text').rest⟩ := by
          rw [← hresult]
        rw [scanAll_of_next hnext hend, scanAll_of_next (h.trans hnext) hend]

theorem tokenize_error {text : String} {m : Misread} (h : scanAll text.toList = .error m) :
    tokenize text = .error (m.locate text.toList) := by
  rw [tokenize, h]
  rfl

/-- What the first call gives on a text whose first token is known. -/
theorem Lexer.nextToken_ofText {text : String} {lexeme rest : List Char} {t : Token}
    (htext : text.toList = lexeme ++ rest) (h : Scan.next text.toList = ⟨.ok t, rest⟩) :
    (Lexer.ofText text).nextToken = (.ok t, ⟨text.toList, lexeme.length⟩) := by
  have hcursor : text.toList.length - rest.length = lexeme.length := by
    rw [htext, List.length_append]
    omega
  simp only [Lexer.nextToken, Lexer.ofText, Lexer.rest, Lexer.advance, List.drop_zero, h,
    hcursor, Nat.zero_add]
  rfl

theorem toList_quote (value : String) : (quote value).toList = Token.stringText value := by
  rw [quote, String.toList_ofList]

theorem toList_quoteIdent (name : String) :
    (quoteIdent name).toList = Token.identText name := by
  rw [quoteIdent, String.toList_ofList]

theorem tokenize_cut {q : Char} (hq : Text.Quoted.IsQuote q) {value : List Char}
    {whole cut more : String} (hwhole : whole.toList = Text.Quoted.write q value)
    (hcut : cut ++ more = whole) (hne : cut ≠ "") (hmore : more ≠ "") :
    ∃ e, tokenize cut = .error e := by
  have hlists : cut.toList ++ more.toList = Text.Quoted.write q value := by
    rw [← String.toList_append, hcut, hwhole]
  obtain ⟨m, hm⟩ := Scan.next_cut hq hlists (by simpa using hne) (by simpa using hmore)
  exact ⟨_, tokenize_error (scanAll_of_error hm)⟩

/-- A written string or name is exactly one token in front of every text, and a
quoted form that is cut off is never accepted. -/
theorem quoted_forms_delimit_themselves :
    (∀ value rest : String,
      (Lexer.ofText (quote value ++ rest)).nextToken =
        (.ok (.string value),
          ⟨(quote value ++ rest).toList, (quote value).toList.length⟩)) ∧
    (∀ name rest : String,
      (isBareIdent name = true → Text.startsInWord rest.toList = false) →
      (Lexer.ofText (quoteIdent name ++ rest)).nextToken =
        (.ok (.ident name),
          ⟨(quoteIdent name ++ rest).toList, (quoteIdent name).toList.length⟩)) ∧
    (∀ value cut more : String,
      cut ++ more = quote value → cut ≠ "" → more ≠ "" →
      ∃ e, tokenize cut = .error e) ∧
    (∀ name cut more : String,
      isBareIdent name = false → cut ++ more = quoteIdent name → cut ≠ "" → more ≠ "" →
      ∃ e, tokenize cut = .error e) := by
  refine ⟨?_, ?_, ?_, ?_⟩
  · intro value rest
    apply Lexer.nextToken_ofText (String.toList_append ..)
    rw [String.toList_append, toList_quote]
    exact Scan.next_stringText value rest.toList
  · intro name rest hrest
    apply Lexer.nextToken_ofText (String.toList_append ..)
    rw [String.toList_append, toList_quoteIdent]
    exact Scan.next_identText name hrest
  · intro value cut more hcut hne hmore
    exact tokenize_cut (Or.inr rfl) (toList_quote value) hcut hne hmore
  · intro name cut more hquoted hcut hne hmore
    have hwhole : (quoteIdent name).toList =
        Text.Quoted.write Text.Quoted.identQuote name.toList := by
      rw [toList_quoteIdent, Token.identText, if_neg (by simp [hquoted])]
    exact tokenize_cut (Or.inl rfl) hwhole hcut hne hmore

/-- A name that needs quotes, a bare one in front of a blank, and two texts cut
off inside an escape. -/
theorem quoted_forms_delimit_themselves_at_names_and_cuts :
    (isBareIdent "cpu load" = false ∧
      (Lexer.ofText (quoteIdent "cpu load" ++ "x")).nextToken =
        (.ok (.ident "cpu load"),
          ⟨(quoteIdent "cpu load" ++ "x").toList, (quoteIdent "cpu load").toList.length⟩)) ∧
    (isBareIdent "host" = true ∧ Text.startsInWord " = 1".toList = false ∧
      (Lexer.ofText (quoteIdent "host" ++ " = 1")).nextToken =
        (.ok (.ident "host"),
          ⟨(quoteIdent "host" ++ " = 1").toList, (quoteIdent "host").toList.length⟩)) ∧
    (("'it\\" ++ "'s'" = quote "it's" ∧ ∃ e, tokenize "'it\\" = .error e) ∧
      ("\"a\\u\x7b00" ++ "07\x7d\"" = quoteIdent "a\x07" ∧
        ∃ e, tokenize "\"a\\u\x7b00" = .error e)) := by
  have hspace : isBareIdent "cpu load" = false := by decide
  have hbare : isBareIdent "host" = true := by decide
  have hblank : Text.startsInWord " = 1".toList = false := by decide
  have hquote : "'it\\" ++ "'s'" = quote "it's" := by decide
  have hcode : "\"a\\u\x7b00" ++ "07\x7d\"" = quoteIdent "a\x07" := by decide
  refine ⟨⟨hspace, ?_⟩, ⟨hbare, hblank, ?_⟩, ⟨hquote, ?_⟩, hcode, ?_⟩
  · exact quoted_forms_delimit_themselves.2.1 "cpu load" "x" (by simp [hspace])
  · exact quoted_forms_delimit_themselves.2.1 "host" " = 1" (fun _ => hblank)
  · exact quoted_forms_delimit_themselves.2.2.1 "it's" "'it\\" "'s'" hquote (by decide)
      (by decide)
  · exact quoted_forms_delimit_themselves.2.2.2 "a\x07" "\"a\\u\x7b00" "07\x7d\"" (by decide) hcode
      (by decide) (by decide)

end FilterLang
