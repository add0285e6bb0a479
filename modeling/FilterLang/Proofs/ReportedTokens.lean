import FilterLang.Proofs.DisplayedTokens
import FilterLang.Proofs.JsonValues
import FilterLang.Report
import Mathlib.Data.List.Forall2

/-!
# Reported tokens are found again

The tokens of a query are reported as JSON, in the compact or the spread form.  Both
forms read as the same array.  A name or a string is reported by what it holds and
any other token by its text, which is the text of that token alone; so the class and
the text of a report are enough to tell the token, a time up to milliseconds.

A number beyond all finite ones is the only exception: it is displayed by a word.
-/

namespace FilterLang

open Json (Value Fault rereadItems? itemsDepth)

/-- The token that is reported with a class and a text. -/
def Token.ofReport? (kind text : String) : Option Token :=
  if kind = "ident" then some (.ident text)
  else if kind = "string" then some (.string text)
  else
    match tokenize text with
    | .ok [t] => some t
    | _ => none

namespace Json

variable {μ : Type}

/-- Either form of a value reads as a whole text, if its brackets do not nest too deep. -/
theorem readWhole_document (v : Value) (level? : Option Nat) :
    (readWhole (valueReader (μ := μ) maxDepth) (v.document level?).text).toOption =
      v.within? μ maxDepth := by
  have hread := (reads_document (μ := μ) (v.document level?) maxDepth).run [] (by simp [EndsNumber])
  rw [List.append_nil, value?_document] at hread
  rw [readWhole, toOption_bind, hread]
  cases v.within? μ maxDepth <;> rfl

end Json

/-! ## The text of a report -/

theorem rereadItems?_reports (μ : Type) (tokens : List Token) :
    rereadItems? μ (tokens.map Token.report) = some (tokens.map Token.report) := by
  induction tokens with
  | nil => rfl
  | cons t tokens ih =>
      rw [List.map_cons, rereadItems?, ih]
      rfl

theorem itemsDepth_reports (tokens : List Token) :
    itemsDepth (tokens.map Token.report) ≤ 1 := by
  induction tokens with
  | nil => exact Nat.zero_le 1
  | cons t tokens ih => exact Nat.max_le.2 ⟨Nat.le_refl 1, ih⟩

theorem within?_reports (μ : Type) (tokens : List Token) :
    (Value.array (tokens.map Token.report)).within? μ Json.maxDepth =
      some (.array (tokens.map Token.report)) := by
  have hdepth : (Value.array (tokens.map Token.report)).depth ≤ Json.maxDepth := by
    have := itemsDepth_reports tokens
    rw [Value.depth, Json.maxDepth]
    omega
  rw [Value.within?, if_pos hdepth, Value.reread?, rereadItems?_reports]
  rfl

theorem exists_tokensReport {query : String} {tokens : List Token}
    (h : tokenize query = .ok tokens) (pretty : Bool) :
    ∃ text, tokensReport query pretty = .ok text ∧
      ∀ μ : Type, Json.readWhole (Json.valueReader (μ := μ) Json.maxDepth) text.toList =
        .ok (.array (tokens.map Token.report)) := by
  have hform : ∃ level?, (if pretty then (Value.array (tokens.map Token.report)).spreadText 0
      else (Value.array (tokens.map Token.report)).text) =
        ((Value.array (tokens.map Token.report)).document level?).text := by
    cases pretty with
    | false => exact ⟨none, (Json.text_compact _).symm⟩
    | true => exact ⟨some 0, (Json.text_spread _ 0).symm⟩
  obtain ⟨level?, hform⟩ := hform
  refine ⟨_, by rw [tokensReport, h], ?_⟩
  intro μ
  rw [String.toList_ofList, hform, ← Json.toOption_eq_some, Json.readWhole_document,
    within?_reports]

theorem tokensReport_error {query : String} {e : LexError} (h : tokenize query = .error e)
    (pretty : Bool) : tokensReport query pretty = .error (.lex e) := by
  rw [tokensReport, h]

/-! ## The token of a report -/

section

variable {t : Token}

theorem tokenize_text (h : t.Displayable) (hshown : t.shown = t) :
    tokenize (String.ofList t.text) = .ok [t.toMillis] := by
  have hend : ∀ c ∈ ([] : List Char).head?, c = ' ' := by simp
  have hnext := Token.next_text h hend
  rw [List.append_nil, hshown] at hnext
  rw [tokenize_eq_ok_iff, String.toList_ofList, scanAll_of_next hnext (Token.toMillis_ne_end h),
    scanAll_blanks (by simp)]
  rfl

/-- Where the class is none of the two that report what they hold, the text decides. -/
theorem ofReport?_of_text (h : t.Displayable) (hshown : t.shown = t) {kind : String}
    (hident : kind ≠ "ident") (hstring : kind ≠ "string") :
    Token.ofReport? kind (String.ofList t.text) = some t.toMillis := by
  rw [Token.ofReport?, if_neg hident, if_neg hstring, tokenize_text h hshown]

/-- A token that a text can hold is told by its report, a time up to milliseconds. -/
theorem ofReport?_report (h : t.Displayable) (hshown : t.shown = t) :
    Token.ofReport? t.className t.reportedText = some t.toMillis := by
  have htext := @ofReport?_of_text t h hshown t.className
  cases t with
  | ident name => rfl
  | string value => rfl
  | number value => exact htext (by simp [Token.className]) (by simp [Token.className])
  | time instant => exact htext (by simp [Token.className]) (by simp [Token.className])
  | keyword k => exact htext (by simp [Token.className]) (by simp [Token.className])
  | symbol s =>
      cases hop : s.isOperator with
      | false => exact htext (by simp [Token.className, hop]) (by simp [Token.className, hop])
      | true => exact htext (by simp [Token.className, hop]) (by simp [Token.className, hop])
  | endOfInput => cases h

end

/-- The report of a query fails exactly if the query is none, with the same error.
Otherwise both of its forms read as one array, which has for each token in order an
object with its class and its text, and these tell the token. -/
theorem reported_tokens_are_found_again (query : String) :
    (∀ (pretty : Bool) (error : ReportError), tokensReport query pretty = .error error ↔
      ∃ e, tokenize query = .error e ∧ error = .lex e) ∧
    ∀ tokens, tokenize query = .ok tokens →
      ∃ compact spread values,
        tokensReport query false = .ok compact ∧ tokensReport query true = .ok spread ∧
        (∀ μ : Type,
          Json.readWhole (Json.valueReader (μ := μ) Json.maxDepth) compact.toList =
            .ok (.array values) ∧
          Json.readWhole (Json.valueReader (μ := μ) Json.maxDepth) spread.toList =
            .ok (.array values)) ∧
        List.Forall₂ (fun t v => ∃ kind text,
          v = .object [("kind", .string kind), ("text", .string text)] ∧
            ((∀ negative, t ≠ .number (.infinite negative)) →
              Token.ofReport? kind text = some t.toMillis)) tokens values := by
  constructor
  · intro pretty error
    cases hquery : tokenize query with
    | error e =>
        rw [tokensReport_error hquery]
        simp [eq_comm]
    | ok tokens =>
        obtain ⟨text, htext, -⟩ := exists_tokensReport hquery pretty
        rw [htext]
        simp
  · intro tokens hquery
    obtain ⟨compact, hcompact, hread⟩ := exists_tokensReport hquery false
    obtain ⟨spread, hspread, hread'⟩ := exists_tokensReport hquery true
    refine ⟨compact, spread, tokens.map Token.report, hcompact, hspread,
      fun μ => ⟨hread μ, hread' μ⟩, ?_⟩
    rw [List.forall₂_map_right_iff, List.forall₂_same]
    intro t ht
    exact ⟨t.className, t.reportedText, rfl,
      fun hfinite => ofReport?_report (displayable_of_tokenize hquery ht hfinite)
        (shown_of_tokenize hquery ht)⟩

/-- A keyword as a name, the keyword itself and a string with a line feed, and a text that
is no query. -/
theorem reported_tokens_are_found_again_at_a_quoted_keyword :
    (tokenize "\"in\" in 'a\\n'" = .ok [.ident "in", .keyword .isIn, .string "a\n"] ∧
      ∃ compact spread values,
        tokensReport "\"in\" in 'a\\n'" false = .ok compact ∧
        tokensReport "\"in\" in 'a\\n'" true = .ok spread ∧
        (∀ μ : Type,
          Json.readWhole (Json.valueReader (μ := μ) Json.maxDepth) compact.toList =
            .ok (.array values) ∧
          Json.readWhole (Json.valueReader (μ := μ) Json.maxDepth) spread.toList =
            .ok (.array values)) ∧
        List.Forall₂ (fun (t : Token) (v : Value) => ∃ kind text,
          v = .object [("kind", .string kind), ("text", .string text)] ∧
            ((∀ negative, t ≠ .number (.infinite negative)) →
              Token.ofReport? kind text = some t.toMillis))
          [Token.ident "in", Token.keyword .isIn, Token.string "a\n"] values) ∧
    tokensReport "a;" true = .error (.lex ⟨.unexpectedChar ';', ⟨1, 2⟩⟩) := by
  have htokens : tokenize "\"in\" in 'a\\n'" =
      .ok [.ident "in", .keyword .isIn, .string "a\n"] := by decide +kernel
  have herror : tokenize "a;" = .error ⟨.unexpectedChar ';', ⟨1, 2⟩⟩ := by decide +kernel
  refine ⟨⟨htokens, (reported_tokens_are_found_again _).2 _ htokens⟩, ?_⟩
  exact ((reported_tokens_are_found_again _).1 true _).2 ⟨_, herror, rfl⟩

end FilterLang
