import FilterLang.Expr.Node
import FilterLang.Proofs.ExprNodes
import FilterLang.Proofs.WrittenTokens

/-!
# The tokens of a rendered tree

A tree describes a stream of tokens, and its text is read as exactly that
stream.  Blanks keep an operator apart from its operands whatever these are.
Children of a group stand side by side, so there two words must not meet; what
lies between them may be any number of children that render as nothing.

A time is described by what calendar and clock show of it, to the millisecond.  So a
leap second inside a minute counts as the second after it.

The invariant of a text is that it is read on its own in front of everything
that cannot prolong it.  A text may be prolonged by a character of a word if it
ends in one, and a time by a point.  No text of a tree begins with a point.
-/

namespace FilterLang

open Text (endsInWord startsInWord isWordChar)

-- What holds of each character of a list or an option is decided along it.
attribute [local instance (high)] List.decidableBAll Option.decidableForallMem

namespace Text

theorem endsInWord_append {back : List Char} (hback : back ≠ []) (front : List Char) :
    endsInWord (front ++ back) = endsInWord back := by
  unfold endsInWord
  rw [List.getLast?_append_of_ne_nil front hback]

theorem endsInWord_of_forall {text : List Char} (hne : text ≠ [])
    (h : ∀ c ∈ text, isWordChar c = true) : endsInWord text = true := by
  unfold endsInWord
  rw [List.getLast?_eq_some_getLast hne]
  exact h _ (List.getLast_mem hne)

theorem startsInWord_append {front : List Char} (hfront : front ≠ []) (back : List Char) :
    startsInWord (front ++ back) = startsInWord front := by
  cases front with
  | nil => contradiction
  | cons c front => rfl

end Text

/-! ## Texts and what follows them -/

def Follows (text rest : List Char) : Prop :=
  (endsInWord text = true → startsInWord rest = false) ∧ ∀ c ∈ rest.head?, c ≠ '.'

theorem follows_nil (text : List Char) : Follows text [] := by
  simp [Follows, startsInWord]

/-- The text gives these tokens in front of everything that may follow it. -/
structure ReadsAs (text : List Char) (tokens : List Token) : Prop where
  no_point : ∀ c ∈ text.head?, c ≠ '.'
  scan : ∀ rest, Follows text rest →
    scanAll (text ++ rest) = (scanAll rest).map (tokens ++ ·)

namespace ReadsAs

variable {text front back : List Char} {tokens fronts backs : List Token} {t : Token}

theorem nil : ReadsAs [] [] where
  no_point := by simp
  scan := by
    intro rest _
    rw [List.nil_append]
    cases scanAll rest <;> rfl

theorem token (hpoint : ∀ c ∈ text.head?, c ≠ '.') (ht : t ≠ .endOfInput)
    (hnext : ∀ rest, Follows text rest → Scan.next (text ++ rest) = ⟨.ok t, rest⟩) :
    ReadsAs text [t] where
  no_point := hpoint
  scan := by
    intro rest hrest
    exact scanAll_of_next (hnext rest hrest) ht

theorem append (hfront : ReadsAs front fronts) (hback : ReadsAs back backs)
    (hword : endsInWord front = true → startsInWord back = false) :
    ReadsAs (front ++ back) (fronts ++ backs) := by
  by_cases hne : back = []
  · subst hne
    constructor
    · rw [List.append_nil]
      exact hfront.no_point
    · intro rest hrest
      rw [List.append_nil] at hrest ⊢
      have hnone := hback.scan rest ⟨by simp [endsInWord], hrest.2⟩
      rw [List.nil_append] at hnone
      rw [hfront.scan rest hrest]
      cases hscan : scanAll rest with
      | error m => rfl
      | ok tokens =>
          rw [hscan] at hnone
          have heq : tokens = backs ++ tokens := Except.ok.inj hnone
          simp only [Except.map, List.append_assoc]
          rw [← heq]
  · have hhead : ∀ rest, (back ++ rest).head? = back.head? := by
      intro rest
      cases back with
      | nil => contradiction
      | cons c back => rfl
    constructor
    · cases front with
      | nil => exact hback.no_point
      | cons c front => exact hfront.no_point
    · intro rest hrest
      have hfront' : Follows front (back ++ rest) := by
        constructor
        · rw [Text.startsInWord_append hne]
          exact hword
        · rw [hhead]
          exact hback.no_point
      have hback' : Follows back rest := by
        constructor
        · rw [← Text.endsInWord_append hne front]
          exact hrest.1
        · exact hrest.2
      rw [List.append_assoc, hfront.scan _ hfront', hback.scan _ hback']
      cases scanAll rest with
      | error m => rfl
      | ok tokens => simp only [Except.map, List.append_assoc]

/-- A token that is read off in front of this text, whatever stands behind. -/
theorem cons (hpoint : ∀ c ∈ front.head?, c ≠ '.') (hne : front ≠ []) (ht : t ≠ .endOfInput)
    (hnext : ∀ rest, Scan.next (front ++ (back ++ rest)) = ⟨.ok t, back ++ rest⟩)
    (hback : ReadsAs back backs) (hne' : back ≠ []) :
    ReadsAs (front ++ back) (t :: backs) := by
  constructor
  · cases front with
    | nil => contradiction
    | cons c front => exact hpoint
  · intro rest hrest
    have hback' : Follows back rest := by
      constructor
      · rw [← Text.endsInWord_append hne' front]
        exact hrest.1
      · exact hrest.2
    rw [List.append_assoc, scanAll_of_next (hnext rest) ht, hback.scan rest hback']
    cases scanAll rest <;> rfl

theorem blank (h : ReadsAs text tokens) : ReadsAs (' ' :: text) tokens := by
  constructor
  · simp
  · intro rest hrest
    have hrest' : Follows text rest := by
      constructor
      · intro hends
        apply hrest.1
        have hne : text ≠ [] := by
          rintro rfl
          simp [endsInWord] at hends
        have happend := Text.endsInWord_append hne [' ']
        rw [List.singleton_append] at happend
        rw [happend, hends]
      · exact hrest.2
    have hnext : Scan.next (' ' :: (text ++ rest)) = Scan.next (text ++ rest) := rfl
    rw [List.cons_append, scanAll_congr hnext, h.scan rest hrest']

theorem operator {op : Token} (hop : op.isOperator = true) (h : ReadsAs text tokens) :
    ReadsAs (op.text ++ ' ' :: text) (op :: tokens) := by
  have hblank : ∀ rest, startsInWord (' ' :: text ++ rest) = false := by
    intro rest
    simp [startsInWord, isWordChar]
  cases op with
  | keyword k =>
      have hpoint : ∀ c ∈ k.text.toList.head?, c ≠ '.' := by
        cases k <;> decide
      have hne : k.text.toList ≠ [] := by
        cases k <;> decide
      exact cons hpoint hne (by simp) (fun rest => Scan.next_keyword k (hblank rest)) h.blank
        (by simp)
  | symbol s =>
      have hpoint : ∀ c ∈ s.text.toList.head?, c ≠ '.' := by
        cases s <;> decide
      have hne : s.text.toList ≠ [] := by
        cases s <;> decide
      have hhead : ∀ rest, ∀ d ∈ (' ' :: text ++ rest).head?, d ≠ '=' ∧ d ≠ '~' := by
        intro rest d hd
        cases hd
        decide
      exact cons hpoint hne (by simp) (fun rest => Scan.next_symbol s (hhead rest)) h.blank
        (by simp)
  | _ => contradiction

end ReadsAs

/-! ## Leaves -/

theorem endsInWord_of_isBareIdent {name : String} (hname : isBareIdent name = true) :
    endsInWord name.toList = true := by
  unfold isBareIdent at hname
  split at hname
  next => contradiction
  next c tail hlist =>
    simp only [Bool.and_eq_true, List.all_eq_true] at hname
    obtain ⟨⟨hstart, htail⟩, -⟩ := hname
    rw [hlist]
    apply Text.endsInWord_of_forall (by simp)
    rw [List.forall_mem_cons]
    exact ⟨Text.isWordChar_of_isWordStart hstart, htail⟩

theorem readsAs_identText (name : String) :
    ReadsAs (Token.identText name) [.ident name] := by
  apply ReadsAs.token
  · unfold Token.identText
    split
    next hbare =>
      intro c hc
      unfold isBareIdent at hbare
      split at hbare
      next => contradiction
      next d tail hlist =>
        rw [hlist] at hc
        cases hc
        simp only [Bool.and_eq_true] at hbare
        rintro rfl
        have hstart := hbare.1.1
        contradiction
    next =>
      intro c hc
      cases hc
      decide
  · simp
  · intro rest hrest
    apply Scan.next_identText
    intro hbare
    apply hrest.1
    rw [Token.identText, if_pos hbare]
    exact endsInWord_of_isBareIdent hbare

theorem readsAs_stringText (value : String) :
    ReadsAs (Token.stringText value) [.string value] := by
  apply ReadsAs.token
  · intro c hc
    cases hc
    decide
  · simp
  · intro rest _
    exact Scan.next_stringText value rest

theorem readsAs_booleanText (value : Bool) :
    ReadsAs (if value then "true" else "false").toList
      [.keyword (if value then .true else .false)] := by
  apply ReadsAs.token
  · cases value <;> decide
  · simp
  · intro rest hrest
    apply Scan.next_booleanText
    apply hrest.1
    cases value <;> decide

theorem readsAs_fixedText (magnitude : Magnitude) :
    ReadsAs (magnitude.fixedText 3) [.number magnitude.nearestThousandth] := by
  obtain ⟨whole, fraction, htext, -, hlength, -, hfraction, -⟩ :=
    Magnitude.exists_fixedText (by decide : 0 < 3) magnitude
  apply ReadsAs.token
  · obtain ⟨c, text, htext, hc⟩ := Magnitude.exists_fixedText_eq_cons (by decide : 0 < 3) magnitude
    rw [htext]
    intro d hd
    cases hd
    rintro rfl
    contradiction
  · simp
  · intro rest hrest
    apply Scan.next_fixedText
    apply hrest.1
    have hends : endsInWord fraction = true := by
      apply Text.endsInWord_of_forall
      · rintro rfl
        contradiction
      · intro c hc
        exact Text.isWordChar_of_isDigit (hfraction c hc)
    have hne' : fraction ≠ [] := by
      rintro rfl
      contradiction
    rw [htext, ← List.singleton_append, ← List.append_assoc, Text.endsInWord_append hne', hends]

theorem readsAs_instantText (i : Calendar.Instant) (hyear : i.InFourDigitYears) :
    ReadsAs i.text [.time i.shown.toMillis] := by
  have hends : endsInWord i.text = true := by
    have hdecimal : ∀ width n, endsInWord (Text.decimal width n) = true := by
      intro width n
      apply Text.endsInWord_of_forall (Text.decimal_ne_nil width n)
      intro c hc
      exact Text.isWordChar_of_isDigit (Text.isDigit_of_mem_decimal hc)
    have hback : ∀ (front : List Char) (c : Char) (width n : Nat),
        endsInWord (front ++ c :: Text.decimal width n) = true := by
      intro front c width n
      rw [← List.singleton_append, ← List.append_assoc,
        Text.endsInWord_append (Text.decimal_ne_nil width n), hdecimal]
    unfold Calendar.Instant.text Calendar.millisText
    dsimp only
    split
    · rw [List.append_nil, Calendar.clockText, ← List.cons_append, ← List.append_assoc]
      exact hback ..
    · exact hback ..
  apply ReadsAs.token
  · obtain ⟨c, text, htext, hc⟩ := Scan.exists_instantText_eq_cons i hyear
    rw [htext]
    intro d hd
    cases hd
    rintro rfl
    contradiction
  · simp
  · intro rest hrest
    exact Scan.next_instantText i hyear (hrest.1 hends) hrest.2

/-- A symbol in front of a text that does not begin with a second half of one. -/
theorem readsAs_symbol (s : Symbol) {text : List Char} {tokens : List Token}
    (h : ReadsAs text tokens) (hne : text ≠ [])
    (hhead : ∀ d ∈ text.head?, d ≠ '=' ∧ d ≠ '~') :
    ReadsAs (s.text.toList ++ text) (.symbol s :: tokens) := by
  have hpoint : ∀ c ∈ s.text.toList.head?, c ≠ '.' := by
    cases s <;> decide
  have hne' : s.text.toList ≠ [] := by
    cases s <;> decide
  refine ReadsAs.cons hpoint hne' (by simp) ?_ h hne
  intro rest
  apply Scan.next_symbol
  cases text with
  | nil => contradiction
  | cons d text => exact hhead

theorem readsAs_word {c : Char} {tail : List Char} (hstart : Text.isWordStart c = true)
    (htail : ∀ d ∈ tail, isWordChar d = true) :
    ReadsAs (c :: tail) [Scan.wordToken (c :: tail)] := by
  have hends : endsInWord (c :: tail) = true := by
    apply Text.endsInWord_of_forall (by simp)
    rw [List.forall_mem_cons]
    exact ⟨Text.isWordChar_of_isWordStart hstart, htail⟩
  apply ReadsAs.token
  · intro d hd
    cases hd
    rintro rfl
    contradiction
  · unfold Scan.wordToken
    split <;> simp
  · intro rest hrest
    exact Scan.next_wholeWord hstart htail (hrest.1 hends)

/-! ## Trees -/

namespace Expr

/-- The tokens of a number literal: a minus for the sign bit and thousandths.
The texts of numbers that are not finite read as names. -/
def numberTokens : Binary64 → List Token
  | .nan => [.ident "NaN"]
  | .infinite negative => [.symbol (if negative then .minus else .plus), .ident "Inf"]
  | .finite negative magnitude =>
      (if negative then [.symbol .minus] else []) ++ [.number magnitude.nearestThousandth]

mutual

/-- The tokens that a tree describes. -/
def flat : Expr Token → List Token
  | group _ children => flatChildren children
  | binary _ op (some lhs) (some rhs) => flat lhs ++ op :: flat rhs
  | unary _ op (some operand) => op :: flat operand
  | ternary _ op (some lhs) (some rhs) (some rhs2) => flat lhs ++ op :: (flat rhs ++ flat rhs2)
  | binary .. | unary .. | ternary .. => []
  | reference _ name => [.ident name]
  | number _ value => numberTokens value
  | boolean _ value => [.keyword (if value then .true else .false)]
  | string _ value => [.string value]
  | time _ value => [.time value.instant.shown.toMillis]

def flatChildren : List (Option (Expr Token)) → List Token
  | [] => []
  | none :: children => flatChildren children
  | some child :: children => flat child ++ flatChildren children

end

def shownTexts (children : List (Option (Expr Token))) : List (List Char) :=
  (children.filterMap fun child => child.map text).filter fun text => !text.isEmpty

/-- No word of a child runs into a word of the next one that renders as something. -/
def WordsApart (children : List (Option (Expr Token))) : Prop :=
  (shownTexts children).IsChain fun left right =>
    ¬ (endsInWord left = true ∧ startsInWord right = true)

instance (children : List (Option (Expr Token))) : Decidable (WordsApart children) := by
  unfold WordsApart
  infer_instance

/-- Trees whose text reads as the tokens that they describe. -/
structure Retokenizable (e : Expr Token) : Prop where
  operators : ∀ op ∈ e.operators, op.isOperator = true
  years : ∀ m ∈ e.moments, m.instant.InFourDigitYears
  groups : ∀ children ∈ e.groups, WordsApart children

theorem Retokenizable.operand {e operand : Expr Token} (h : e.Retokenizable)
    (hmem : operand ∈ e.operands) : operand.Retokenizable where
  operators := by
    intro op hop
    exact h.operators op (mem_filterMap_nodes.2 (Or.inr ⟨operand, hmem, hop⟩))
  years := by
    intro m hm
    exact h.years m (mem_filterMap_nodes.2 (Or.inr ⟨operand, hmem, hm⟩))
  groups := by
    intro children hchildren
    exact h.groups children (mem_filterMap_nodes.2 (Or.inr ⟨operand, hmem, hchildren⟩))

theorem Retokenizable.operator {e : Expr Token} (h : e.Retokenizable) {op : Token}
    (hop : e.operator? = some op) : op.isOperator = true :=
  h.operators op (mem_filterMap_nodes.2 (Or.inl hop))

theorem readsAs_numberText (value : Binary64) :
    ReadsAs (numberText value) (numberTokens value) := by
  have hinf : ReadsAs "Inf".toList [.ident "Inf"] := by
    have hstart : Text.isWordStart 'I' = true := rfl
    have htail : ∀ d ∈ ['n', 'f'], isWordChar d = true := by simp [isWordChar]
    exact readsAs_word hstart htail
  cases value with
  | nan =>
      have hstart : Text.isWordStart 'N' = true := rfl
      have htail : ∀ d ∈ ['a', 'N'], isWordChar d = true := by simp [isWordChar]
      exact readsAs_word hstart htail
  | infinite negative =>
      cases negative with
      | false => exact readsAs_symbol .plus hinf (by simp) (by decide)
      | true => exact readsAs_symbol .minus hinf (by simp) (by decide)
  | finite negative magnitude =>
      have hfixed := readsAs_fixedText magnitude
      cases negative with
      | false => exact hfixed
      | true =>
          obtain ⟨c, text, htext, hc⟩ :=
            Magnitude.exists_fixedText_eq_cons (by decide : 0 < 3) magnitude
          refine readsAs_symbol .minus hfixed ?_ ?_
          · simp [htext]
          · rw [htext]
            intro d hd
            cases hd
            constructor
            · rintro rfl
              contradiction
            · rintro rfl
              contradiction

theorem shownTexts_cons_some (child : Expr Token) (children : List (Option (Expr Token))) :
    shownTexts (some child :: children) =
      if child.text = [] then shownTexts children else child.text :: shownTexts children := by
  by_cases hempty : child.text = []
  · simp [shownTexts, hempty]
  · simp [shownTexts, hempty]

theorem flatten_shownTexts (children : List (Option (Expr Token))) :
    (shownTexts children).flatten = childrenText children := by
  induction children with
  | nil => rfl
  | cons operand children ih =>
      cases operand with
      | none => exact ih
      | some child =>
          rw [shownTexts_cons_some, childrenText]
          by_cases hempty : child.text = []
          · rw [if_pos hempty, ih, hempty, List.nil_append]
          · rw [if_neg hempty, List.flatten_cons, ih]

/-- The words of children that are apart do not meet in their text either. -/
theorem WordsApart.next {child : Expr Token} {children : List (Option (Expr Token))}
    (h : WordsApart (some child :: children)) :
    WordsApart children ∧
      (endsInWord child.text = true → startsInWord (childrenText children) = false) := by
  have hshown : ∀ text ∈ shownTexts children, text ≠ [] := by
    intro text htext
    have hfilter := (List.mem_filter.1 htext).2
    simpa using hfilter
  unfold WordsApart at h ⊢
  rw [shownTexts_cons_some] at h
  by_cases hempty : child.text = []
  · rw [if_pos hempty] at h
    constructor
    · exact h
    · simp [hempty, endsInWord]
  · rw [if_neg hempty] at h
    rw [← flatten_shownTexts]
    cases htexts : shownTexts children with
    | nil =>
        constructor
        · exact .nil
        · simp [startsInWord]
    | cons text texts =>
        rw [htexts] at h hshown
        obtain ⟨hapart, hrest⟩ := List.isChain_cons_cons.1 h
        constructor
        · exact hrest
        · intro hends
          rw [List.flatten_cons, Text.startsInWord_append (hshown text (List.mem_cons_self ..))]
          simpa [hends] using hapart

theorem readsAs_childrenText {children : List (Option (Expr Token))}
    (hwords : WordsApart children)
    (hchildren : ∀ child, some child ∈ children → ReadsAs child.text child.flat) :
    ReadsAs (childrenText children) (flatChildren children) := by
  induction children with
  | nil => exact .nil
  | cons operand children ih =>
      have htail : ∀ child, some child ∈ children → ReadsAs child.text child.flat := by
        intro child hchild
        exact hchildren child (List.mem_cons_of_mem _ hchild)
      cases operand with
      | none => exact ih hwords htail
      | some child =>
          obtain ⟨hrest, hword⟩ := hwords.next
          have hchild := hchildren child (List.mem_cons_self ..)
          rw [childrenText, flatChildren]
          exact hchild.append (ih hrest htail) hword

/-- The text of a tree reads as its tokens, whatever may follow it. -/
theorem readsAs_text (e : Expr Token) (h : e.Retokenizable) : ReadsAs e.text e.flat := by
  have hblank : ∀ text : List Char, startsInWord (' ' :: text) = false := by
    intro text
    simp [startsInWord, isWordChar]
  induction e with
  | group id children ih =>
      rw [text, flat]
      have hwords := h.groups children (mem_filterMap_nodes.2 (Or.inl rfl))
      apply readsAs_childrenText hwords
      intro child hchild
      exact ih child hchild (h.operand (by simpa [operands] using hchild))
  | binary id op lhs rhs ihl ihr =>
      cases lhs with
      | none => exact .nil
      | some lhs =>
          cases rhs with
          | none => exact .nil
          | some rhs =>
              have hlhs := ihl lhs rfl (h.operand (by simp [operands]))
              have hrhs := ihr rhs rfl (h.operand (by simp [operands]))
              have hright := (hrhs.operator (h.operator rfl)).blank
              have hboth := hlhs.append hright fun _ => hblank _
              rw [text, flat, List.append_assoc]
              exact hboth
  | unary id op operand ih =>
      cases operand with
      | none => exact .nil
      | some operand =>
          have hoperand := ih operand rfl (h.operand (by simp [operands]))
          exact hoperand.operator (h.operator rfl)
  | ternary id op lhs rhs rhs2 ihl ihr ihr2 =>
      cases lhs with
      | none => exact .nil
      | some lhs =>
          cases rhs with
          | none => exact .nil
          | some rhs =>
              cases rhs2 with
              | none => exact .nil
              | some rhs2 =>
                  have hlhs := ihl lhs rfl (h.operand (by simp [operands]))
                  have hrhs := ihr rhs rfl (h.operand (by simp [operands]))
                  have hrhs2 := ihr2 rhs2 rfl (h.operand (by simp [operands]))
                  have hlast := hrhs.append hrhs2.blank fun _ => hblank _
                  have hright := (hlast.operator (h.operator rfl)).blank
                  have hall := hlhs.append hright fun _ => hblank _
                  rw [text, flat]
                  simp only [List.append_assoc, List.cons_append] at hall ⊢
                  exact hall
  | reference id name => exact readsAs_identText name
  | number id value => exact readsAs_numberText value
  | boolean id value => exact readsAs_booleanText value
  | string id value => exact readsAs_stringText value
  | time id value =>
      exact readsAs_instantText value.instant
        (h.years value (mem_filterMap_nodes.2 (Or.inl rfl)))

end Expr
end FilterLang
