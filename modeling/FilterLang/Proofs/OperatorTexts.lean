import FilterLang.Proofs.LoneTokens
import FilterLang.Proofs.ReadOperators
import Mathlib.Data.List.DropRight

/-!
# Texts of operators

There are two ways to read a keyword or a symbol.  The one for an operator on its own
trims blanks and looks the rest up; the other one scans.  What is looked up is a
spelling: a keyword in either case, or a symbol.  A spelling is a lexeme, and the
lexemes of the tokens that have no content of their own are the spellings, so both ways
find the same tokens.  An operator in JSON is a string that is read in the first way.
-/

namespace FilterLang

open Text (isBlank isWordStart)

-- What holds of each character of a list or an option is decided along it.
attribute [local instance (high)] List.decidableBAll Option.decidableForallMem

namespace Text

/-! ## Trimmed texts -/

theorem trimBlanks_eq_rdropWhile (text : List Char) :
    trimBlanks text = (text.dropWhile isBlank).rdropWhile isBlank :=
  rfl

/-- What is trimmed off either end is blank. -/
theorem exists_trimBlanks (text : List Char) :
    ∃ before after, text = before ++ trimBlanks text ++ after ∧
      (∀ c ∈ before, isBlank c = true) ∧ ∀ c ∈ after, isBlank c = true := by
  have hfront : text.takeWhile isBlank ++ text.dropWhile isBlank = text :=
    List.takeWhile_append_dropWhile
  have hback : trimBlanks text ++ (text.dropWhile isBlank).rtakeWhile isBlank =
      text.dropWhile isBlank := by
    rw [trimBlanks_eq_rdropWhile]
    exact List.rdropWhile_append_rtakeWhile
  refine ⟨text.takeWhile isBlank, (text.dropWhile isBlank).rtakeWhile isBlank, ?_, ?_, ?_⟩
  · rw [List.append_assoc, hback, hfront]
  · intro c hc
    exact List.mem_takeWhile_imp hc
  · intro c hc
    exact List.mem_rtakeWhile_imp hc

theorem trimBlanks_blanks_around {before word after : List Char}
    (hbefore : ∀ c ∈ before, isBlank c = true) (hafter : ∀ c ∈ after, isBlank c = true)
    (hne : word ≠ []) (hword : ∀ c ∈ word, isBlank c = false) :
    trimBlanks (before ++ word ++ after) = word := by
  have hfront : (before ++ word ++ after).dropWhile isBlank = word ++ after := by
    obtain ⟨c, tail, rfl⟩ := List.exists_cons_of_ne_nil hne
    have hc := hword c (List.mem_cons_self ..)
    rw [List.append_assoc, List.dropWhile_append_of_pos hbefore, List.cons_append]
    exact List.dropWhile_cons_of_neg (by simp [hc])
  have hback : (word ++ after).rdropWhile isBlank = word.rdropWhile isBlank := by
    have hreverse : ∀ c ∈ after.reverse, isBlank c = true := by
      intro c hc
      exact hafter c (List.mem_reverse.1 hc)
    rw [List.rdropWhile, List.reverse_append, List.dropWhile_append_of_pos hreverse]
    rfl
  have hkept : word.rdropWhile isBlank = word := by
    rw [List.rdropWhile_eq_self_iff]
    intro _
    simp [hword _ (List.getLast_mem hne)]
  rw [trimBlanks_eq_rdropWhile, hfront, hback, hkept]

/-- Only a letter has a capital. -/
theorem isAlpha_of_isUpper_toUpper {c : Char} (h : c.toUpper.isUpper = true) :
    c.isAlpha = true := by
  have hletter : c.isAlpha =
      (c.isUpper || (decide (c.val ≥ 'a'.val) && decide (c.val ≤ 'z'.val))) := rfl
  rw [hletter, Bool.or_eq_true, Bool.and_eq_true, decide_eq_true_eq, decide_eq_true_eq]
  unfold Char.toUpper at h
  split at h
  next hlower => exact Or.inr hlower
  next => exact Or.inl h

end Text

/-! ## Spellings -/

/-- The tokens that hold something of their own: names, strings, numbers and times. -/
def Token.hasContent : Token → Bool
  | ident _ | string _ | number _ | time _ => true
  | keyword _ | symbol _ | endOfInput => false

/-- How keywords and symbols are written. -/
inductive Spelling : List Char → Token → Prop
  | keyword {word : List Char} {k : Keyword} (h : word.map Char.toUpper = k.text.toList) :
      Spelling word (.keyword k)
  | symbol (s : Symbol) : Spelling s.text.toList (.symbol s)

namespace Spelling

variable {word : List Char} {t : Token}

theorem isWord {k : Keyword} (h : word.map Char.toUpper = k.text.toList) : IsWord word := by
  have hcapitals : ∀ c ∈ k.text.toList, c.isUpper = true := by
    cases k <;> decide
  have hletter : ∀ c ∈ word, c.isAlpha = true := by
    intro c hc
    apply Text.isAlpha_of_isUpper_toUpper
    apply hcapitals
    rw [← h]
    exact List.mem_map_of_mem hc
  have hne : k.text.toList ≠ [] := by
    cases k <;> decide
  cases word with
  | nil => exact absurd h.symm hne
  | cons c tail =>
      rw [List.forall_mem_cons] at hletter
      constructor
      · simp [isWordStart, hletter.1]
      · intro d hd
        apply Text.isWordChar_of_isWordStart
        simp [isWordStart, hletter.2 d hd]

theorem lexeme (h : Spelling word t) : Lexeme word t := by
  cases h with
  | keyword hk => exact .keyword (isWord hk) hk
  | symbol s => exact .symbol s

theorem hasContent (h : Spelling word t) : t.hasContent = false := by
  cases h with
  | keyword => rfl
  | symbol => rfl

theorem isBlank (h : Spelling word t) : ∀ c ∈ word, Text.isBlank c = false := by
  cases h with
  | keyword hk =>
      intro c hc
      exact Text.isBlank_of_isWordChar ((isWord hk).isWordChar c hc)
  | symbol s => cases s <;> decide

theorem trimBlanks {before after : List Char} (h : Spelling word t)
    (hbefore : ∀ c ∈ before, Text.isBlank c = true)
    (hafter : ∀ c ∈ after, Text.isBlank c = true) :
    Text.trimBlanks (before ++ word ++ after) = word :=
  Text.trimBlanks_blanks_around hbefore hafter h.lexeme.ne_nil h.isBlank

theorem of_ofText? {s : Symbol} (h : Symbol.ofText? word = some s) : Spelling word (.symbol s) := by
  have hs := List.find?_some h
  rw [← beq_iff_eq.1 hs]
  exact .symbol s

/-- The lexemes of tokens without content are spelled. -/
theorem iff_lexeme : Spelling word t ↔ Lexeme word t ∧ t.hasContent = false := by
  constructor
  · intro h
    exact ⟨h.lexeme, h.hasContent⟩
  · rintro ⟨h, hcontent⟩
    cases h with
    | symbol s => exact .symbol s
    | keyword _ hk => exact .keyword hk
    | name | number | time | quotedName | quotedString => cases hcontent

end Spelling

/-! ## Operators on their own -/

namespace Token

/-- What is looked up in the two tables is a spelling. -/
theorem ofOperatorText_eq_ok_iff (text : String) (t : Token) :
    ofOperatorText text = .ok t ↔ Spelling (Text.trimBlanks text.toList) t := by
  unfold ofOperatorText
  generalize Text.trimBlanks text.toList = trimmed
  dsimp only
  cases hsymbol : Symbol.ofText? trimmed with
  | some s =>
      have hspelling := Spelling.of_ofText? hsymbol
      constructor
      · rintro ⟨⟩
        exact hspelling
      · intro h
        rw [h.lexeme.unique hspelling.lexeme]
  | none =>
      cases hkeyword : Keyword.ofWord? trimmed with
      | some k =>
          have hspelling : Spelling trimmed (.keyword k) :=
            .keyword ((IsWord.ofWord?_eq_some_iff _ k).1 hkeyword)
          constructor
          · rintro ⟨⟩
            exact hspelling
          · intro h
            rw [h.lexeme.unique hspelling.lexeme]
      | none =>
          constructor
          · rintro ⟨⟩
          · intro h
            cases h with
            | keyword hk =>
                rw [(IsWord.ofWord?_eq_some_iff _ _).2 hk] at hkeyword
                contradiction
            | symbol s =>
                rw [Symbol.ofText?_text] at hsymbol
                contradiction

/-- Blanks around a spelling change nothing. -/
theorem ofOperatorText_eq_ok_iff_exists (text : String) (t : Token) :
    ofOperatorText text = .ok t ↔
      ∃ before word after, text.toList = before ++ word ++ after ∧
        (∀ c ∈ before, isBlank c = true) ∧ (∀ c ∈ after, isBlank c = true) ∧ Spelling word t := by
  rw [ofOperatorText_eq_ok_iff]
  constructor
  · intro h
    obtain ⟨before, after, hsplit, hbefore, hafter⟩ := Text.exists_trimBlanks text.toList
    exact ⟨before, _, after, hsplit, hbefore, hafter, h⟩
  · rintro ⟨before, word, after, hsplit, hbefore, hafter, h⟩
    rwa [hsplit, h.trimBlanks hbefore hafter]

theorem ofOperatorText_eq_ok_iff_tokenize (text : String) (t : Token) :
    ofOperatorText text = .ok t ↔ tokenize text = .ok [t] ∧ t.hasContent = false := by
  rw [ofOperatorText_eq_ok_iff_exists, tokenize_eq_ok_iff, scanAll_singleton_iff]
  simp only [Spelling.iff_lexeme]
  constructor
  · rintro ⟨before, word, after, hsplit, hbefore, hafter, hlexeme, hcontent⟩
    exact ⟨⟨before, word, after, hsplit, hbefore, hafter, hlexeme⟩, hcontent⟩
  · rintro ⟨⟨before, word, after, hsplit, hbefore, hafter, hlexeme⟩, hcontent⟩
    exact ⟨before, word, after, hsplit, hbefore, hafter, hlexeme, hcontent⟩

end Token

/-! ## Operators in JSON -/

namespace Interchange

open Json (Value)

theorem read_token_ok_iff (text : String) (t : Token) :
    (OperatorForm.read text : Except Mismatch Token) = .ok t ↔ Token.ofOperatorText text = .ok t :=
  mapError_eq_ok_iff

theorem Draft.fill_op_ok_iff {Op : Type} [OperatorForm Op] (k : Kind) (text : String)
    (subtrees : Subtrees Op) (draft draft' : Draft Op) :
    draft.fill k .op (.string text) subtrees = .ok draft' ↔
      ∃ op, OperatorForm.read text = .ok op ∧ draft' = { draft with op := some op } := by
  simp only [Draft.fill, readText, bind, Except.bind]
  cases (OperatorForm.read text : Except Mismatch Op) with
  | error e => simp
  | ok op =>
      constructor
      · rintro ⟨⟩
        exact ⟨op, rfl, rfl⟩
      · rintro ⟨_, ⟨⟩, rfl⟩
        rfl

theorem ofJson_unary_ok_iff {Op : Type} [OperatorForm Op] (text : String) (e : Expr Op) :
    Expr.ofJson (String.ofList (Value.object
      [(tagName, .string Kind.unary.name), (Field.op.key, .string text)]).text) = .ok e ↔
        ∃ op, OperatorForm.read text = .ok op ∧ e = .unary "" op none := by
  rw [← Json.toOption_eq_some, toOption_ofJson_unary, Option.map_eq_some_iff]
  simp only [Json.toOption_eq_some, eq_comm (a := e)]

end Interchange

open Interchange

/-- A text is an operator's exactly if it is read as a single token that has no content of
its own, and that is to say it is a keyword in either case or a symbol, with blanks around
it.  In JSON no other string is taken for an operator, whatever node it stands in. -/
theorem operator_texts_are_lone_tokens (text : String) :
    (∀ t, Token.ofOperatorText text = .ok t ↔ tokenize text = .ok [t] ∧ t.hasContent = false) ∧
      (∀ t, Token.ofOperatorText text = .ok t ↔
        ∃ before word after, text.toList = before ++ word ++ after ∧
          (∀ c ∈ before, isBlank c = true) ∧ (∀ c ∈ after, isBlank c = true) ∧
          Spelling word t) ∧
      (∀ (k : Kind) (draft draft' : Draft Token) (subtrees : Subtrees Token),
        draft.fill k .op (.string text) subtrees = .ok draft' ↔
          ∃ t, (tokenize text = .ok [t] ∧ t.hasContent = false) ∧
            draft' = { draft with op := some t }) ∧
      (∀ e : Expr Token, Expr.ofJson (String.ofList (Json.Value.object
          [(tagName, .string Kind.unary.name), (Field.op.key, .string text)]).text) = .ok e ↔
        ∃ t, (tokenize text = .ok [t] ∧ t.hasContent = false) ∧ e = .unary "" t none) := by
  have hread : ∀ t : Token, OperatorForm.read text = .ok t ↔
      tokenize text = .ok [t] ∧ t.hasContent = false := by
    intro t
    rw [read_token_ok_iff, Token.ofOperatorText_eq_ok_iff_tokenize]
  refine ⟨Token.ofOperatorText_eq_ok_iff_tokenize text,
    Token.ofOperatorText_eq_ok_iff_exists text, ?_, ?_⟩
  · intro k draft draft' subtrees
    rw [Draft.fill_op_ok_iff]
    simp only [hread]
  · intro e
    rw [ofJson_unary_ok_iff]
    simp only [hread]

/-- Two symbols are no operator, nor is the Kelvin sign a letter of `LIKE`. -/
example : Token.ofOperatorText "\u00a0Like\u3000" = .ok (.keyword .like) ∧
    Token.ofOperatorText "= ~" = .error ⟨"= ~"⟩ ∧
    Token.ofOperatorText "LI\u212aE" = .error ⟨"LI\u212aE"⟩ := by
  decide

end FilterLang
