import FilterLang.Expr.Node
import FilterLang.Proofs.CivilTime
import FilterLang.Proofs.ExprNodes
import FilterLang.Proofs.LexemeBoundaries
import FilterLang.Proofs.NumberTexts

/-!
# String values stay inside their literals

A site is a tree with a hole where a string literal stands.  What is rendered in
front of the hole has every quote closed, whatever the tree: its operators may be
any tokens and its texts may run together into something else than the tree
says.  So the lexer comes to the opening quote of the literal in the same way for
every value, or fails before it; it takes the literal as one token and goes on
with the same text behind it.
-/

namespace FilterLang

open Text.Quoted (IsQuote identQuote stringQuote)

-- What holds of each character of a list is decided along the list.
attribute [local instance (high)] List.decidableBAll

namespace Text.Quoted

/-- Texts in which every quoted form that is opened is also closed. -/
inductive Balanced : List Char → Prop
  | nil : Balanced []
  | plain {c : Char} {text : List Char} (hc : ¬ IsQuote c) (htext : Balanced text) :
      Balanced (c :: text)
  | form {q : Char} (value : List Char) {text : List Char} (hq : IsQuote q)
      (htext : Balanced text) : Balanced (write q value ++ text)

theorem Balanced.append {front back : List Char} (hfront : Balanced front)
    (hback : Balanced back) : Balanced (front ++ back) := by
  induction hfront with
  | nil => exact hback
  | plain hc _ ih => exact .plain hc ih
  | form value hq _ ih =>
      rw [List.append_assoc]
      exact .form value hq ih

theorem balanced_of_forall {text : List Char} (h : ∀ c ∈ text, ¬ IsQuote c) :
    Balanced text := by
  induction text with
  | nil => exact .nil
  | cons c text ih =>
      rw [List.forall_mem_cons] at h
      exact .plain h.1 (ih h.2)

theorem balanced_write {q : Char} (hq : IsQuote q) (value : List Char) :
    Balanced (write q value) := by
  have hform := Balanced.form value hq .nil
  rwa [List.append_nil] at hform

theorem Balanced.drop {front rest : List Char} (h : Balanced (front ++ rest))
    (hfront : ∀ c ∈ front, ¬ IsQuote c) : Balanced rest := by
  induction front with
  | nil => exact h
  | cons c front ih =>
      rw [List.forall_mem_cons] at hfront
      apply ih _ hfront.2
      cases hfull : c :: front ++ rest with
      | nil => contradiction
      | cons d text =>
          rw [hfull] at h
          rw [List.cons_append, List.cons.injEq] at hfull
          obtain ⟨rfl, rfl⟩ := hfull
          generalize hwhole : c :: (front ++ rest) = whole at h
          cases h with
          | nil => contradiction
          | plain _ htext =>
              cases hwhole
              exact htext
          | form value hq _ =>
              have hhead := (List.cons.inj hwhole).1
              exact absurd (hhead ▸ hq) hfront.1

/-- A balanced text that begins with a quote begins with a whole quoted form. -/
theorem Balanced.quoted {q : Char} {text : List Char} (h : Balanced (q :: text))
    (hq : IsQuote q) :
    ∃ value rest : List Char, text = value.flatMap (writeChar q) ++ q :: rest ∧ Balanced rest := by
  generalize hwhole : q :: text = whole at h
  cases h with
  | nil => contradiction
  | plain hc _ =>
      cases hwhole
      exact absurd hq hc
  | @form q' value rest _ hrest =>
      simp only [write, List.cons_append, List.append_assoc, List.nil_append,
        List.cons.injEq] at hwhole
      obtain ⟨rfl, rfl⟩ := hwhole
      exact ⟨value, rest, rfl, hrest⟩

end Text.Quoted

open Text.Quoted (Balanced balanced_of_forall balanced_write)

/-! ## Lexing up to a string literal -/

/-- One scan of a balanced text in front of a string literal: it comes to the
literal, takes a token and leaves a balanced text, or fails, and which of these
happens does not depend on the literal or the text behind it. -/
theorem next_up_to_string {front : List Char} (hfront : Balanced front) :
    (∀ text, Scan.next (front ++ stringQuote :: text) = Scan.next (stringQuote :: text)) ∨
    (∃ (t : Token) (rest : List Char), t ≠ .endOfInput ∧ Balanced rest ∧
      rest.length < front.length ∧
      ∀ text, Scan.next (front ++ stringQuote :: text) =
        ⟨.ok t, rest ++ stringQuote :: text⟩) ∨
    (∀ text, ∃ m, (Scan.next (front ++ stringQuote :: text)).result = .error m) := by
  have hbreaks := Text.breaksLexemes_of_isQuote (q := stringQuote) (Or.inr rfl)
  have hblank : Text.isBlank stringQuote = false := by decide
  have hnext : ∀ text, Scan.next (front ++ stringQuote :: text) =
      Scan.lexeme (front.dropWhile Text.isBlank ++ stringQuote :: text) := by
    intro text
    rw [Scan.next, Text.dropWhile_append_cons hblank]
  have hshort := (List.dropWhile_sublist Text.isBlank (l := front)).length_le
  have hbalanced : Balanced (front.dropWhile Text.isBlank) := by
    have hwhole : Balanced (front.takeWhile Text.isBlank ++ front.dropWhile Text.isBlank) := by
      rwa [List.takeWhile_append_dropWhile]
    apply hwhole.drop
    intro c hc
    have hc' := List.all_eq_true.1 List.all_takeWhile c hc
    rintro (rfl | rfl) <;> exact absurd hc' (by decide)
  cases hdrop : front.dropWhile Text.isBlank with
  | nil =>
      refine Or.inl ?_
      intro text
      rw [hnext, hdrop, List.nil_append, Scan.next_of_not_isBlank hblank]
  | cons c tail =>
      rw [hdrop] at hbalanced hshort hnext
      by_cases hc : IsQuote c
      · obtain ⟨value, rest, rfl, hrest⟩ := hbalanced.quoted hc
        refine Or.inr (Or.inl ⟨if c = identQuote then .ident (String.ofList value)
          else .string (String.ofList value), rest, ?_, hrest, ?_, ?_⟩)
        · split <;> simp
        · simp only [List.length_cons, List.length_append] at hshort
          omega
        · intro text
          have hquotes : c = identQuote ∨ c = stringQuote := hc
          rw [hnext, List.cons_append, Scan.lexeme, if_pos hquotes, Scan.quoted,
            List.append_assoc, List.cons_append, Text.Quoted.readBody_written hc]
      · have hlexeme : ∀ text, Scan.next (front ++ stringQuote :: text) =
            (Scan.lexeme (c :: tail)).behind (stringQuote :: text) := by
          intro text
          rw [hnext, List.cons_append, Scan.lexeme_append hc hbreaks]
        cases hresult : (Scan.lexeme (c :: tail)).result with
        | error m =>
            refine Or.inr (Or.inr ?_)
            intro text
            refine ⟨⟨m.cause, m.place ++ stringQuote :: text⟩, ?_⟩
            rw [hlexeme, Scan.behind, hresult]
            rfl
        | ok t =>
            have hend := Scan.lexeme_ne_end hresult
            obtain ⟨taken, htaken, hunquoted⟩ := Scan.lexeme_front hc tail
            have hrest : Balanced (Scan.lexeme (c :: tail)).rest := by
              rw [← htaken] at hbalanced
              exact hbalanced.drop hunquoted
            have hlt := Scan.lexeme_shorter hresult hend
            refine Or.inr (Or.inl ⟨t, (Scan.lexeme (c :: tail)).rest, hend, hrest, ?_, ?_⟩)
            · omega
            · intro text
              rw [hlexeme, Scan.behind, hresult]
              rfl

/-- In front of a string literal a balanced text either fails or gives some
tokens, whatever the literal and the text behind it. -/
theorem scanAll_up_to_string {front : List Char} (hfront : Balanced front) :
    (∃ tokens : List Token, ∀ text,
      scanAll (front ++ stringQuote :: text) =
        (scanAll (stringQuote :: text)).map (tokens ++ ·)) ∨
    (∀ text, ∃ m, scanAll (front ++ stringQuote :: text) = .error m) := by
  induction hlength : front.length using Nat.strongRecOn generalizing front with
  | ind length ih =>
      rcases next_up_to_string hfront with hsame | ⟨t, rest, hend, hrest, hlt, hnext⟩ | hfail
      · refine Or.inl ⟨[], ?_⟩
        intro text
        rw [scanAll_congr (hsame text)]
        cases scanAll (stringQuote :: text) <;> rfl
      · rcases ih rest.length (by omega) hrest rfl with ⟨tokens, htokens⟩ | herror
        · refine Or.inl ⟨t :: tokens, ?_⟩
          intro text
          rw [scanAll_of_next (hnext text) hend, htokens]
          cases scanAll (stringQuote :: text) <;> rfl
        · refine Or.inr ?_
          intro text
          obtain ⟨m, hm⟩ := herror text
          refine ⟨m, ?_⟩
          rw [scanAll_of_next (hnext text) hend, hm]
          rfl
      · refine Or.inr ?_
        intro text
        obtain ⟨m, hm⟩ := hfail text
        exact ⟨m, scanAll_of_error hm⟩

theorem scanAll_at_string {front : List Char} (hfront : Balanced front) (back : List Char) :
    (∃ (before : List Token) (after : Except Misread (List Token)), ∀ value : String,
      scanAll (front ++ Token.stringText value ++ back) =
        after.map fun tokens => before ++ .string value :: tokens) ∨
    (∀ value : String, ∃ m,
      scanAll (front ++ Token.stringText value ++ back) = .error m) := by
  have hwritten : ∀ value : String, ∃ text,
      Token.stringText value ++ back = stringQuote :: text := by
    intro value
    exact ⟨_, rfl⟩
  rcases scanAll_up_to_string hfront with ⟨before, hbefore⟩ | herror
  · refine Or.inl ⟨before, scanAll back, ?_⟩
    intro value
    obtain ⟨text, htext⟩ := hwritten value
    have hnext := Scan.next_stringText value back
    rw [List.append_assoc, htext, hbefore, ← htext, scanAll_of_next hnext (by simp)]
    cases scanAll back <;> rfl
  · refine Or.inr ?_
    intro value
    obtain ⟨text, htext⟩ := hwritten value
    rw [List.append_assoc, htext]
    exact herror text

/-! ## Texts of trees -/

theorem Token.balanced_text (t : Token) : Balanced t.text := by
  cases t with
  | ident name =>
      simp only [Token.text, identText]
      split
      next hbare =>
        refine balanced_of_forall ?_
        intro c hc
        unfold isBareIdent at hbare
        split at hbare
        next => contradiction
        next d rest hlist =>
          simp only [Bool.and_eq_true, List.all_eq_true] at hbare
          rw [hlist] at hc
          rcases List.mem_cons.1 hc with rfl | hc
          · exact Scan.not_isQuote_of_isWordChar
              (Text.isWordChar_of_isWordStart hbare.1.1)
          · exact Scan.not_isQuote_of_isWordChar (hbare.1.2 c hc)
      next => exact balanced_write (Or.inl rfl) _
  | string value => exact balanced_write (Or.inr rfl) _
  | number value =>
      refine balanced_of_forall ?_
      intro c hc
      rcases Binary64.mem_text hc with (hdigit | hmark) | hletter
      · exact Scan.not_isQuote_of_isDigit hdigit
      · rintro (rfl | rfl) <;> exact absurd hmark (by decide)
      · rintro (rfl | rfl) <;> exact absurd hletter (by decide)
  | time instant =>
      refine balanced_of_forall ?_
      intro c hc
      rcases instant.isTimeChar_text c hc with hdigit | hmark
      · exact Scan.not_isQuote_of_isDigit hdigit
      · rintro (rfl | rfl) <;> exact absurd hmark (by decide)
  | keyword k =>
      refine balanced_of_forall ?_
      have hall : ∀ k ∈ Keyword.all, ∀ c ∈ k.text.toList,
          c ≠ identQuote ∧ c ≠ stringQuote := by decide
      intro c hc
      simpa [IsQuote] using hall k k.mem_all c hc
  | symbol s =>
      refine balanced_of_forall ?_
      have hall : ∀ s ∈ Symbol.all, ∀ c ∈ s.text.toList,
          c ≠ identQuote ∧ c ≠ stringQuote := by decide
      intro c hc
      simpa [IsQuote] using hall s s.mem_all c hc
  | endOfInput =>
      have hall : ∀ c ∈ "EOF".toList, c ≠ identQuote ∧ c ≠ stringQuote := by decide
      refine balanced_of_forall ?_
      intro c hc
      simpa [IsQuote] using hall c hc

namespace Expr

theorem balanced_numberText (value : Binary64) : Balanced (numberText value) := by
  refine balanced_of_forall ?_
  intro c hc
  cases value with
  | nan =>
      have hall : ∀ c ∈ "NaN".toList, c ≠ identQuote ∧ c ≠ stringQuote := by decide
      simpa [IsQuote] using hall c hc
  | infinite negative =>
      have hall : ∀ negative : Bool, ∀ c ∈ (if negative then "-Inf" else "+Inf").toList,
          c ≠ identQuote ∧ c ≠ stringQuote := by decide
      simpa [IsQuote] using hall negative c hc
  | finite negative magnitude =>
      obtain ⟨whole, fraction, htext, -, -, hwhole, hfraction, -⟩ :=
        Magnitude.exists_fixedText (by decide : 0 < 3) magnitude
      simp only [numberText, htext, List.mem_append, List.mem_cons] at hc
      rcases hc with hsign | hc | rfl | hc
      · cases negative with
        | false => contradiction
        | true =>
            rw [List.mem_singleton.1 hsign]
            rintro (h | h) <;> exact absurd h (by decide)
      · exact Scan.not_isQuote_of_isDigit (hwhole c hc)
      · rintro (h | h) <;> exact absurd h (by decide)
      · exact Scan.not_isQuote_of_isDigit (hfraction c hc)

theorem balanced_childrenText {children : List (Option (Expr Token))}
    (h : ∀ child, some child ∈ children → Balanced child.text) :
    Balanced (childrenText children) := by
  induction children with
  | nil => exact .nil
  | cons operand children ih =>
      have hrest := ih fun child hchild => h child (List.mem_cons_of_mem _ hchild)
      cases operand with
      | none => exact hrest
      | some child => exact (h child (List.mem_cons_self ..)).append hrest

/-- Every quote that a rendered tree opens, it closes. -/
theorem balanced_text (e : Expr Token) : Balanced e.text := by
  have hspace : ¬ IsQuote ' ' := by
    rintro (h | h) <;> exact absurd h (by decide)
  induction e with
  | group id children ih =>
      rw [text]
      exact balanced_childrenText ih
  | binary id op lhs rhs ihl ihr =>
      cases lhs with
      | none => exact .nil
      | some lhs =>
          cases rhs with
          | none => exact .nil
          | some rhs =>
              rw [text]
              exact ((ihl lhs rfl).append (.plain hspace op.balanced_text)).append
                (.plain hspace (ihr rhs rfl))
  | unary id op operand ih =>
      cases operand with
      | none => exact .nil
      | some operand =>
          rw [text]
          exact op.balanced_text.append (.plain hspace (ih operand rfl))
  | ternary id op lhs rhs rhs2 ihl ihr ihr2 =>
      cases lhs with
      | none => exact .nil
      | some lhs =>
          cases rhs with
          | none => exact .nil
          | some rhs =>
              cases rhs2 with
              | none => exact .nil
              | some rhs2 =>
                  rw [text]
                  exact (((ihl lhs rfl).append (.plain hspace op.balanced_text)).append
                    (.plain hspace (ihr rhs rfl))).append (.plain hspace (ihr2 rhs2 rfl))
  | reference id name => exact Token.balanced_text (.ident name)
  | number id value => exact balanced_numberText value
  | boolean id value =>
      have hall : ∀ value : Bool, ∀ c ∈ (if value then "true" else "false").toList,
          c ≠ identQuote ∧ c ≠ stringQuote := by decide
      refine balanced_of_forall ?_
      intro c hc
      simpa [IsQuote] using hall value c hc
  | string id value => exact Token.balanced_text (.string value)
  | time id value => exact Token.balanced_text (.time value.instant)

end Expr

/-! ## Sites -/

/-- A tree with a hole in place of the value of one string literal. -/
inductive StringSite (Op : Type) where
  | literal (id : String)
  | child (id : String) (before : List (Option (Expr Op))) (site : StringSite Op)
      (after : List (Option (Expr Op)))
  | binaryLhs (id : String) (op : Op) (site : StringSite Op) (rhs : Option (Expr Op))
  | binaryRhs (id : String) (op : Op) (lhs : Option (Expr Op)) (site : StringSite Op)
  | operand (id : String) (op : Op) (site : StringSite Op)
  | ternaryLhs (id : String) (op : Op) (site : StringSite Op) (rhs rhs2 : Option (Expr Op))
  | ternaryRhs (id : String) (op : Op) (lhs : Option (Expr Op)) (site : StringSite Op)
      (rhs2 : Option (Expr Op))
  | ternaryRhs2 (id : String) (op : Op) (lhs rhs : Option (Expr Op)) (site : StringSite Op)

namespace StringSite

variable {Op : Type}

def fill (value : String) : StringSite Op → Expr Op
  | literal id => .string id value
  | child id before site after => .group id (before ++ some (site.fill value) :: after)
  | binaryLhs id op site rhs => .binary id op (some (site.fill value)) rhs
  | binaryRhs id op lhs site => .binary id op lhs (some (site.fill value))
  | operand id op site => .unary id op (some (site.fill value))
  | ternaryLhs id op site rhs rhs2 => .ternary id op (some (site.fill value)) rhs rhs2
  | ternaryRhs id op lhs site rhs2 => .ternary id op lhs (some (site.fill value)) rhs2
  | ternaryRhs2 id op lhs rhs site => .ternary id op lhs rhs (some (site.fill value))

def leafId : StringSite Op → String
  | literal id => id
  | child _ _ site _ | binaryLhs _ _ site _ | binaryRhs _ _ _ site | operand _ _ site
  | ternaryLhs _ _ site _ _ | ternaryRhs _ _ _ site _ | ternaryRhs2 _ _ _ _ site =>
      site.leafId

/-- Every string literal in a tree is at the hole of some site. -/
theorem exists_fill_eq {e : Expr Op} {id value : String}
    (h : Expr.string id value ∈ e.nodes) :
    ∃ site : StringSite Op, site.leafId = id ∧ site.fill value = e := by
  induction e with
  | group gid children ih =>
      rcases Expr.mem_nodes.1 h with heq | ⟨child, hchild, hmem⟩
      · cases heq
      · have hsome : some child ∈ children := by
          simpa [Expr.operands] using hchild
        obtain ⟨site, hid, hfill⟩ := ih child hsome hmem
        obtain ⟨before, after, rfl⟩ := List.append_of_mem hsome
        exact ⟨.child gid before site after, hid, by rw [fill, hfill]⟩
  | binary bid op lhs rhs ihl ihr =>
      rcases Expr.mem_nodes.1 h with heq | ⟨operand, hoperand, hmem⟩
      · cases heq
      simp only [Expr.operands, List.mem_append, Option.mem_toList] at hoperand
      rcases hoperand with rfl | rfl
      · obtain ⟨site, hid, hfill⟩ := ihl operand rfl hmem
        exact ⟨.binaryLhs bid op site rhs, hid, by rw [fill, hfill]⟩
      · obtain ⟨site, hid, hfill⟩ := ihr operand rfl hmem
        exact ⟨.binaryRhs bid op lhs site, hid, by rw [fill, hfill]⟩
  | unary uid op operand ih =>
      rcases Expr.mem_nodes.1 h with heq | ⟨operand', hoperand, hmem⟩
      · cases heq
      simp only [Expr.operands, Option.mem_toList] at hoperand
      subst hoperand
      obtain ⟨site, hid, hfill⟩ := ih operand' rfl hmem
      exact ⟨.operand uid op site, hid, by rw [fill, hfill]⟩
  | ternary tid op lhs rhs rhs2 ihl ihr ihr2 =>
      rcases Expr.mem_nodes.1 h with heq | ⟨operand, hoperand, hmem⟩
      · cases heq
      simp only [Expr.operands, List.mem_append, Option.mem_toList] at hoperand
      rcases hoperand with (rfl | rfl) | rfl
      · obtain ⟨site, hid, hfill⟩ := ihl operand rfl hmem
        exact ⟨.ternaryLhs tid op site rhs rhs2, hid, by rw [fill, hfill]⟩
      · obtain ⟨site, hid, hfill⟩ := ihr operand rfl hmem
        exact ⟨.ternaryRhs tid op lhs site rhs2, hid, by rw [fill, hfill]⟩
      · obtain ⟨site, hid, hfill⟩ := ihr2 operand rfl hmem
        exact ⟨.ternaryRhs2 tid op lhs rhs site, hid, by rw [fill, hfill]⟩
  | string sid svalue =>
      rcases Expr.mem_nodes.1 h with heq | ⟨operand, hoperand, -⟩
      · cases heq
        exact ⟨.literal id, rfl, rfl⟩
      · contradiction
  | _ =>
      rcases Expr.mem_nodes.1 h with heq | ⟨operand, hoperand, -⟩
      · cases heq
      · contradiction

/-- What is rendered around the hole does not depend on its value. -/
def Framed (site : StringSite Token) : Prop :=
  (∃ front back, Balanced front ∧
    ∀ value, (site.fill value).text = front ++ Token.stringText value ++ back) ∨
  ∃ text, ∀ value, (site.fill value).text = text

theorem Framed.surround {site outer : StringSite Token} (h : site.Framed)
    {front : List Char} (hfront : Balanced front) (back : List Char)
    (hfill : ∀ value, (outer.fill value).text = front ++ (site.fill value).text ++ back) :
    outer.Framed := by
  rcases h with ⟨front', back', hfront', hframe⟩ | ⟨text, htext⟩
  · refine Or.inl ⟨front ++ front', back' ++ back, hfront.append hfront', ?_⟩
    intro value
    rw [hfill, hframe]
    simp only [List.append_assoc]
  · refine Or.inr ⟨front ++ text ++ back, ?_⟩
    intro value
    rw [hfill, htext]

theorem framed_of_blank {outer : StringSite Token}
    (hfill : ∀ value, (outer.fill value).text = []) : outer.Framed :=
  Or.inr ⟨[], hfill⟩

theorem framed (site : StringSite Token) : site.Framed := by
  have hspace : ¬ IsQuote ' ' := by
    rintro (h | h) <;> exact absurd h (by decide)
  have hop : ∀ op : Token, Balanced (CanonicalText.text op) := Token.balanced_text
  induction site with
  | literal id =>
      refine Or.inl ⟨[], [], .nil, ?_⟩
      intro value
      rw [fill, Expr.text, List.nil_append, List.append_nil]
  | child id before site after ih =>
      have hbefore : Balanced (Expr.childrenText before) :=
        Expr.balanced_childrenText fun child _ => child.balanced_text
      refine ih.surround hbefore (Expr.childrenText after) ?_
      intro value
      rw [fill, Expr.text, Expr.childrenText_append, Expr.childrenText, List.append_assoc]
  | binaryLhs id op site rhs ih =>
      cases rhs with
      | none => exact framed_of_blank fun _ => rfl
      | some rhs =>
          refine ih.surround .nil (' ' :: CanonicalText.text op ++ ' ' :: rhs.text) ?_
          intro value
          rw [fill, Expr.text, List.nil_append, List.append_assoc]
  | binaryRhs id op lhs site ih =>
      cases lhs with
      | none => exact framed_of_blank fun _ => rfl
      | some lhs =>
          have hfront : Balanced (lhs.text ++ (' ' :: CanonicalText.text op ++ [' '])) :=
            lhs.balanced_text.append (.plain hspace ((hop op).append (.plain hspace .nil)))
          refine ih.surround hfront [] ?_
          intro value
          simp only [fill, Expr.text, List.append_assoc, List.cons_append, List.nil_append,
            List.append_nil]
  | operand id op site ih =>
      have hfront : Balanced (CanonicalText.text op ++ [' ']) :=
        (hop op).append (.plain hspace .nil)
      refine ih.surround hfront [] ?_
      intro value
      simp only [fill, Expr.text, List.append_assoc, List.cons_append, List.nil_append,
        List.append_nil]
  | ternaryLhs id op site rhs rhs2 ih =>
      cases rhs with
      | none => exact framed_of_blank fun _ => rfl
      | some rhs =>
          cases rhs2 with
          | none => exact framed_of_blank fun _ => rfl
          | some rhs2 =>
              refine ih.surround .nil
                (' ' :: CanonicalText.text op ++ ' ' :: rhs.text ++ ' ' :: rhs2.text) ?_
              intro value
              simp only [fill, Expr.text, List.append_assoc, List.cons_append,
                List.nil_append]
  | ternaryRhs id op lhs site rhs2 ih =>
      cases lhs with
      | none => exact framed_of_blank fun _ => rfl
      | some lhs =>
          cases rhs2 with
          | none => exact framed_of_blank fun _ => rfl
          | some rhs2 =>
              have hfront : Balanced (lhs.text ++ (' ' :: CanonicalText.text op ++ [' '])) :=
                lhs.balanced_text.append (.plain hspace ((hop op).append (.plain hspace .nil)))
              refine ih.surround hfront (' ' :: rhs2.text) ?_
              intro value
              simp only [fill, Expr.text, List.append_assoc, List.cons_append,
                List.nil_append]
  | ternaryRhs2 id op lhs rhs site ih =>
      cases lhs with
      | none => exact framed_of_blank fun _ => rfl
      | some lhs =>
          cases rhs with
          | none => exact framed_of_blank fun _ => rfl
          | some rhs =>
              have hfront : Balanced (lhs.text ++ (' ' :: CanonicalText.text op ++
                  (' ' :: rhs.text ++ [' ']))) :=
                lhs.balanced_text.append (.plain hspace ((hop op).append
                  (.plain hspace (rhs.balanced_text.append (.plain hspace .nil)))))
              refine ih.surround hfront [] ?_
              intro value
              simp only [fill, Expr.text, List.append_assoc, List.cons_append,
                List.nil_append, List.append_nil]

end StringSite

theorem toList_render (e : Expr Token) : e.render.toList = e.text := by
  rw [Expr.render, String.toList_ofList]

/-- Two values of one string literal give the same tokens, or the same failure to
give any, up to the token of the literal itself. -/
theorem string_value_changes_only_its_token :
    (∀ (e : Expr Token) (id value : String), Expr.string id value ∈ e.nodes →
      ∃ site : StringSite Token, site.leafId = id ∧ site.fill value = e) ∧
    ∀ (site : StringSite Token) (v v' : String),
      (∃ err err', tokenize (site.fill v).render = .error err ∧
        tokenize (site.fill v').render = .error err') ∨
      ∃ tokens tokens', tokenize (site.fill v).render = .ok tokens ∧
        tokenize (site.fill v').render = .ok tokens' ∧
        (tokens = tokens' ∨
          ∃ before after, tokens = before ++ Token.string v :: after ∧
            tokens' = before ++ Token.string v' :: after) := by
  refine ⟨fun e id value h => StringSite.exists_fill_eq h, ?_⟩
  intro site v v'
  rcases site.framed with ⟨front, back, hfront, hframe⟩ | ⟨text, htext⟩
  · have htexts : ∀ value, (site.fill value).render.toList =
        front ++ Token.stringText value ++ back := by
      intro value
      rw [toList_render, hframe]
    rcases scanAll_at_string hfront back with ⟨before, after, hscan⟩ | herror
    · cases after with
      | error m =>
          refine Or.inl ⟨_, _, tokenize_error (m := m) ?_, tokenize_error (m := m) ?_⟩
          · rw [htexts, hscan]
            rfl
          · rw [htexts, hscan]
            rfl
      | ok after =>
          refine Or.inr ⟨before ++ .string v :: after, before ++ .string v' :: after,
            tokenize_eq_ok_iff.2 ?_, tokenize_eq_ok_iff.2 ?_, Or.inr ⟨before, after, rfl, rfl⟩⟩
          · rw [htexts, hscan]
            rfl
          · rw [htexts, hscan]
            rfl
    · obtain ⟨m, hm⟩ := herror v
      obtain ⟨m', hm'⟩ := herror v'
      rw [← htexts] at hm hm'
      exact Or.inl ⟨_, _, tokenize_error hm, tokenize_error hm'⟩
  · have hsame : (site.fill v').render = (site.fill v).render := by
      rw [Expr.render, Expr.render, htext, htext]
    rw [hsame]
    cases htokens : tokenize (site.fill v).render with
    | error err => exact Or.inl ⟨err, err, rfl, rfl⟩
    | ok tokens => exact Or.inr ⟨tokens, tokens, rfl, rfl, Or.inl rfl⟩

/-- A comparison with a string, and a value that tries to end the literal. -/
theorem string_value_changes_only_its_token_in_a_comparison :
    (Expr.string "s" "web" ∈
        (Expr.binary "" (Token.symbol .eq) (some (.reference "" "host"))
          (some (.string "s" "web"))).nodes ∧
      ∃ site : StringSite Token, site.leafId = "s" ∧
        site.fill "web" = .binary "" (Token.symbol .eq) (some (.reference "" "host"))
          (some (.string "s" "web"))) ∧
    ((∃ err err',
        tokenize ((StringSite.binaryRhs "" (Token.symbol .eq) (some (.reference "" "host"))
          (.literal "s")).fill "web").render = .error err ∧
        tokenize ((StringSite.binaryRhs "" (Token.symbol .eq) (some (.reference "" "host"))
          (.literal "s")).fill "' OR 'a' = 'a").render = .error err') ∨
      ∃ tokens tokens',
        tokenize ((StringSite.binaryRhs "" (Token.symbol .eq) (some (.reference "" "host"))
          (.literal "s")).fill "web").render = .ok tokens ∧
        tokenize ((StringSite.binaryRhs "" (Token.symbol .eq) (some (.reference "" "host"))
          (.literal "s")).fill "' OR 'a' = 'a").render = .ok tokens' ∧
        (tokens = tokens' ∨
          ∃ before after, tokens = before ++ Token.string "web" :: after ∧
            tokens' = before ++ Token.string "' OR 'a' = 'a" :: after)) := by
  have hleaf : Expr.string "s" "web" ∈
      (Expr.binary "" (Token.symbol .eq) (some (.reference "" "host"))
        (some (.string "s" "web"))).nodes := by
    simp [Expr.nodes, Expr.operandNodes]
  exact ⟨⟨hleaf, string_value_changes_only_its_token.1 _ _ _ hleaf⟩,
    string_value_changes_only_its_token.2 _ "web" "' OR 'a' = 'a"⟩

end FilterLang
