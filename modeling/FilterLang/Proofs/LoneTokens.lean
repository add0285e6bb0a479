import FilterLang.Proofs.SpacedTexts

/-!
# Texts of one token

A lexeme on its own is read as its token: nothing at its start that is a lexeme as
well is longer, and if it has the shape of a time it is one.  Blanks around it change
nothing.  So a text is read as one token exactly if it is a lexeme of that token with
blanks on either side.

For a name this tells when it may stand without quotes.  A quoted form is longer than
the name that it holds, so no text in quotes is read as itself.
-/

namespace FilterLang

open Text (isBlank)
open Text.Quoted (Items identQuote)

-- What holds of each character of a list or an option is decided along it.
attribute [local instance (high)] List.decidableBAll Option.decidableForallMem

/-! ## Lexemes on their own -/

namespace Lexeme

variable {text : List Char} {t : Token}

theorem ne_end (h : Lexeme text t) : t ≠ .endOfInput := by
  rintro rfl
  cases h

theorem head_not_isBlank (h : Lexeme text t) : ∀ c ∈ text.head?, isBlank c = false := by
  have hword : ∀ {word : List Char}, IsWord word → ∀ c ∈ word.head?, isBlank c = false := by
    intro word hword c hc
    exact Text.isBlank_of_isWordChar (hword.isWordChar c (List.mem_of_mem_head? hc))
  have hdigit : ∀ {c : Char} {tail : List Char}, c.isDigit = true →
      ∀ d ∈ (c :: tail).head?, isBlank d = false := by
    rintro c tail hc d ⟨⟩
    exact Text.isBlank_of_isWordChar (Text.isWordChar_of_isDigit hc)
  cases h with
  | symbol s => cases s <;> decide
  | keyword hkeyword => exact hword hkeyword
  | name hname => exact hword hname
  | number hnumber =>
      obtain ⟨c, tail, rfl, hc⟩ := hnumber.exists_cons
      exact hdigit hc
  | time htime =>
      obtain ⟨c, tail, rfl, hc⟩ := htime.timeText.exists_cons
      exact hdigit hc
  | quotedName =>
      rintro c ⟨⟩
      rfl
  | quotedString =>
      rintro c ⟨⟩
      rfl

/-- A lexeme that begins with the shape of a time is a time. -/
theorem not_mistimed (h : Lexeme text t) : ¬ Mistimed text := by
  intro hmistimed
  have hlong := hmistimed.le_length
  obtain ⟨⟨clock, f, ⟨rest, rfl⟩, hclock⟩, hnone⟩ := hmistimed
  obtain ⟨c, tail, rfl, hc⟩ := hclock.exists_cons
  have hkind := lexeme_of_isDigit hc (List.prefix_refl (c :: (tail ++ rest))) h
  rcases hkind with ⟨value, hnumber⟩ | ⟨reading, htime⟩
  · have hle := hnumber.length_le (List.prefix_refl _)
    rw [← List.cons_append, hclock.numberLexeme_length] at hle
    omega
  · exact hnone _ reading (List.prefix_refl _) htime

theorem stands (h : Lexeme text t) : Stands text t [] := by
  constructor
  · exact h.head_not_isBlank
  · refine ⟨List.prefix_append .., h, ?_⟩
    intro other t' hbegins _
    rw [List.append_nil] at hbegins
    exact hbegins.length_le
  · rw [List.append_nil]
    exact h.not_mistimed

theorem scanAll_blanks_around (h : Lexeme text t) {before after : List Char}
    (hbefore : ∀ c ∈ before, isBlank c = true) (hafter : ∀ c ∈ after, isBlank c = true) :
    scanAll (before ++ text ++ after) = .ok [t] := by
  have hstands : Stands text t after := by
    by_cases hne : after = []
    · rw [hne]
      exact h.stands
    · have hspaced := h.stands.spaced hafter hne (scanAll_blanks (List.forall_mem_nil _))
      rwa [List.nil_append, List.append_nil] at hspaced
  rw [scanAll_of_next (hstands.next hbefore) h.ne_end, scanAll_blanks hafter]
  rfl

end Lexeme

/-- A text is read as one token exactly if it is a lexeme with blanks around it. -/
theorem scanAll_singleton_iff {text : List Char} {t : Token} :
    scanAll text = .ok [t] ↔
      ∃ before lexeme after, text = before ++ lexeme ++ after ∧ (∀ c ∈ before, isBlank c = true) ∧
        (∀ c ∈ after, isBlank c = true) ∧ Lexeme lexeme t := by
  constructor
  · intro h
    obtain ⟨read, after, hread, hafter, rfl⟩ := exists_takes_of_scanAll h
    cases hread with
    | @cons before lexeme _ _ _ _ hbefore hstands hlater =>
        cases hlater
        exact ⟨before, lexeme, after, by rw [List.append_nil], hbefore, hafter,
          hstands.longest.lexeme⟩
  · rintro ⟨before, lexeme, after, rfl, hbefore, hafter, hlexeme⟩
    exact hlexeme.scanAll_blanks_around hbefore hafter

/-! ## Names without quotes -/

theorem isBareIdent_iff (name : String) :
    isBareIdent name = true ↔
      IsWord name.toList ∧ ∀ k : Keyword, name.toList.map Char.toUpper ≠ k.text.toList := by
  unfold isBareIdent
  cases hname : name.toList with
  | nil => simp [IsWord]
  | cons c tail =>
      have hkeyword : Keyword.ofWord? (c :: tail) = none ↔
          ∀ k : Keyword, (c :: tail).map Char.toUpper ≠ k.text.toList := by
        rw [Option.eq_none_iff_forall_ne_some]
        exact forall_congr' fun k => not_congr (IsWord.ofWord?_eq_some_iff _ k)
      simp only [Bool.and_eq_true, List.all_eq_true, Option.isNone_iff_eq_none, hkeyword, IsWord]

theorem Text.Quoted.Items.length_le {q : Char} {items value : List Char} (h : Items q items value) :
    value.length ≤ items.length := by
  induction h with
  | nil => exact Nat.le_refl _
  | plain _ _ _ ih =>
      simp only [List.length_cons]
      omega
  | escape _ _ ih =>
      simp only [List.length_cons, List.length_append]
      omega

/-- A text that is read as the name that it is stands without quotes and blanks. -/
theorem isBareIdent_of_scanAll {name : String} (h : scanAll name.toList = .ok [.ident name]) :
    isBareIdent name = true := by
  obtain ⟨before, lexeme, after, hsplit, -, -, hlexeme⟩ := scanAll_singleton_iff.1 h
  have hlength := congrArg List.length hsplit
  simp only [List.length_append] at hlength
  generalize htoken : Token.ident name = t at hlexeme
  cases hlexeme with
  | name hword hkeyword =>
      cases htoken
      rw [isBareIdent_iff, String.toList_ofList]
      exact ⟨hword, hkeyword⟩
  | quotedName hitems =>
      cases htoken
      have hle := hitems.length_le
      rw [String.toList_ofList] at hlength
      simp only [List.length_append, List.length_cons] at hlength
      omega
  | symbol | keyword | number | time | quotedString => cases htoken

theorem length_lt_quoteIdent {name : String} (h : isBareIdent name = false) :
    name.toList.length < (quoteIdent name).toList.length := by
  have hitem : ∀ c, 1 ≤ (Text.Quoted.writeChar identQuote c).length := by
    intro c
    unfold Text.Quoted.writeChar
    split_ifs <;> simp
  have hbody : ∀ value : List Char,
      value.length ≤ (value.flatMap (Text.Quoted.writeChar identQuote)).length := by
    intro value
    induction value with
    | nil => exact Nat.le_refl _
    | cons c value ih =>
        have := hitem c
        rw [List.flatMap_cons, List.length_append, List.length_cons]
        omega
  have := hbody name.toList
  rw [toList_quoteIdent, Token.identText, if_neg (by simp [h])]
  simp only [Text.Quoted.write, List.length_append, List.length_cons]
  omega

/-- A name is bare exactly if its own text is read as that name, and exactly if it is
written as it is. -/
theorem bare_names_are_read_as_themselves (name : String) :
    (isBareIdent name = true ↔ tokenize name = .ok [.ident name]) ∧
      (tokenize name = .ok [.ident name] ↔ quoteIdent name = name) := by
  have hread : isBareIdent name = true ↔ tokenize name = .ok [.ident name] := by
    rw [tokenize_eq_ok_iff]
    constructor
    · intro hbare
      obtain ⟨hword, hkeyword⟩ := (isBareIdent_iff name).1 hbare
      have hlexeme := Lexeme.name hword hkeyword
      rw [String.ofList_toList] at hlexeme
      have hscan := hlexeme.scanAll_blanks_around (List.forall_mem_nil _) (List.forall_mem_nil _)
      rwa [List.nil_append, List.append_nil] at hscan
    · exact isBareIdent_of_scanAll
  refine ⟨hread, ?_⟩
  rw [← hread]
  constructor
  · intro hbare
    rw [quoteIdent, Token.identText, if_pos hbare, String.ofList_toList]
  · intro hsame
    by_contra hquoted
    have hlt := length_lt_quoteIdent (Bool.eq_false_iff.2 hquoted)
    rw [hsame] at hlt
    exact Nat.lt_irrefl _ hlt

/-- A keyword, a name in quotes and one with a line feed behind it are not bare. -/
example : isBareIdent "Between" = false ∧ isBareIdent "\"host\"" = false ∧
    isBareIdent "host\n" = false ∧ isBareIdent "_host1" = true := by
  decide

end FilterLang
