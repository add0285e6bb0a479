import FilterLang.Proofs.ErrorPositions

/-!
# Numbers are never refused

A lexer comes to a number at a digit that begins no time.  What it takes there is a
written number, the longest in front, and every written number has a value, the infinite
one if it is too large.  So the error for a number without a value is never given, by no
call on any lexer and for no text.
-/

namespace FilterLang

/-- The longest front of a text that is a written number, and its value. -/
structure LongestNumber (text front : List Char) (value : Binary64) : Prop where
  isPrefix : front <+: text
  number : NumberText front value
  length_le : ∀ other value', other <+: text → NumberText other value' →
    other.length ≤ front.length

namespace Lexer

/-- A digit comes next, and it does not begin the shape of a time. -/
structure AtNumber (lexer : Lexer) : Prop where
  digit : ∃ c tail, lexer.ahead = c :: tail ∧ c.isDigit = true
  no_time : Scan.timeLexeme? lexer.ahead = none

theorem AtNumber.lexeme_eq {lexer : Lexer} (h : lexer.AtNumber) :
    Scan.lexeme lexer.ahead = Scan.number lexer.ahead := by
  obtain ⟨c, tail, hahead, hc⟩ := h.digit
  have htime := h.no_time
  have hblank := Text.isBlank_of_isWordChar (Text.isWordChar_of_isDigit hc)
  rw [hahead] at htime ⊢
  rw [← Scan.next_of_not_isBlank hblank, Scan.next_digit hc, Scan.timeOrNumber, htime]

theorem AtNumber.exists_longestNumber {lexer : Lexer} (h : lexer.AtNumber) :
    ∃ value, LongestNumber lexer.ahead (Scan.numberLexeme lexer.ahead).1 value := by
  obtain ⟨c, tail, hahead, hc⟩ := h.digit
  rw [hahead]
  obtain ⟨value, hnumber⟩ := exists_numberText c hc tail
  obtain ⟨happend, -⟩ := Scan.numberLexeme_front (c :: tail)
  refine ⟨value, ⟨_, happend⟩, hnumber, ?_⟩
  intro other value' hbegins hother
  exact hother.length_le hbegins

theorem AtNumber.nextToken {lexer : Lexer} (h : lexer.AtNumber) {value : Binary64}
    (hread : Binary64.ofText? (Scan.numberLexeme lexer.ahead).1 = some value) :
    lexer.nextToken = (.ok (.number value),
      { lexer with cursor := lexer.start + (Scan.numberLexeme lexer.ahead).1.length }) := by
  have happend := (Scan.numberLexeme_front lexer.ahead).1
  rw [nextToken_eq, h.lexeme_eq, Scan.number]
  dsimp only
  rw [hread, ← advance_eq happend]
  rfl

/-! ## Errors of calls -/

/-- The error that an answer gives, if it gives one. -/
def Answer.error? : Answer → Option LexError
  | token (.error e) | item (some (.error e)) => some e
  | token (.ok _) | item (some (.ok _)) | item none => none

theorem nextToken_cause_ne {lexer : Lexer} {e : LexError} (h : lexer.nextToken.1 = .error e)
    (shown : String) : e.cause ≠ .invalidNumber shown := by
  obtain ⟨-, i, hblames, -⟩ := blames_of_error h
  intro hcause
  rw [hcause] at hblames
  cases hblames

theorem Step.cause_ne {lexer after : Lexer} {answer : Answer} (h : Step lexer answer after)
    {e : LexError} (he : answer.error? = some e) (shown : String) :
    e.cause ≠ .invalidNumber shown := by
  cases h with
  | token =>
      cases htoken : lexer.nextToken.1 with
      | ok t =>
          rw [htoken] at he
          cases he
      | error e' =>
          rw [htoken] at he
          cases he
          exact nextToken_cause_ne htoken shown
  | stopped | ended | given => cases he
  | failed _ htoken =>
      cases he
      exact nextToken_cause_ne htoken shown

theorem run_cause_ne {lexer : Lexer} {calls : List Call} {answer : Answer}
    (h : answer ∈ (lexer.run calls).1) {e : LexError} (he : answer.error? = some e)
    (shown : String) : e.cause ≠ .invalidNumber shown := by
  induction calls generalizing lexer with
  | nil => cases h
  | cons c calls ih =>
      rw [run] at h
      rcases List.mem_cons.1 h with rfl | hlater
      · exact (step_call lexer c).cause_ne he shown
      · exact ih hlater

end Lexer

/-- A lexer that is at a number takes the longest written number in front, which has a
value.  The error for a number without a value is given by no call and for no text. -/
theorem numbers_are_never_refused :
    (∀ lexer : Lexer, lexer.AtNumber → Scan.lexeme lexer.ahead = Scan.number lexer.ahead ∧
      ∃ value, LongestNumber lexer.ahead (Scan.numberLexeme lexer.ahead).1 value ∧
        Binary64.ofText? (Scan.numberLexeme lexer.ahead).1 = some value ∧
        lexer.nextToken = (.ok (.number value),
          { lexer with cursor := lexer.start + (Scan.numberLexeme lexer.ahead).1.length })) ∧
    (∀ (lexer : Lexer) (calls : List Lexer.Call), ∀ answer ∈ (lexer.run calls).1,
      ∀ e ∈ answer.error?, ∀ shown, e.cause ≠ .invalidNumber shown) ∧
    ∀ (text : String) (e : LexError), tokenize text = .error e →
      ∀ shown, e.cause ≠ .invalidNumber shown := by
  refine ⟨?_, ?_, ?_⟩
  · intro lexer h
    obtain ⟨value, hlongest⟩ := h.exists_longestNumber
    have hread := hlongest.number.ofText?
    exact ⟨h.lexeme_eq, value, hlongest, hread, h.nextToken hread⟩
  · intro lexer calls answer hanswer e he shown
    exact Lexer.run_cause_ne hanswer he shown
  · intro text e h shown
    obtain ⟨tokens, stuck, -, -, -, -, herror⟩ := Lexer.exists_stuck h
    exact Lexer.nextToken_cause_ne herror shown

/-- A number between two points, the call that comes to the second point, and a point that
no digit follows. -/
theorem numbers_are_never_refused_at_points :
    (Lexer.AtNumber ⟨"a 12.50.7".toList, 1⟩ ∧
      Scan.lexeme (Lexer.ahead ⟨"a 12.50.7".toList, 1⟩) =
        Scan.number (Lexer.ahead ⟨"a 12.50.7".toList, 1⟩) ∧
      ∃ value, LongestNumber (Lexer.ahead ⟨"a 12.50.7".toList, 1⟩) "12.50".toList value ∧
        Binary64.ofText? "12.50".toList = some value ∧
        Lexer.nextToken ⟨"a 12.50.7".toList, 1⟩ = (.ok (.number value),
          ⟨"a 12.50.7".toList, 7⟩)) ∧
    (.item (some (.error ⟨.unexpectedChar '.', ⟨1, 8⟩⟩)) ∈
        (Lexer.run ⟨"a 12.50.7".toList, 1⟩ [.item, .item]).1 ∧
      ∀ shown, LexCause.unexpectedChar '.' ≠ .invalidNumber shown) ∧
    tokenize "1." = .error ⟨.unexpectedChar '.', ⟨1, 2⟩⟩ ∧
      ∀ shown, LexCause.unexpectedChar '.' ≠ .invalidNumber shown := by
  have hnumber : Lexer.AtNumber ⟨"a 12.50.7".toList, 1⟩ :=
    ⟨⟨'1', "2.50.7".toList, by decide, by decide⟩, by decide⟩
  have hanswer : .item (some (.error ⟨.unexpectedChar '.', ⟨1, 8⟩⟩)) ∈
      (Lexer.run ⟨"a 12.50.7".toList, 1⟩ [.item, .item]).1 :=
    List.mem_cons_of_mem _ (List.mem_singleton.2 rfl)
  have herror : tokenize "1." = .error ⟨.unexpectedChar '.', ⟨1, 2⟩⟩ := by decide +kernel
  refine ⟨⟨hnumber, numbers_are_never_refused.1 _ hnumber⟩, ⟨hanswer, ?_⟩, herror, ?_⟩
  · exact numbers_are_never_refused.2.1 _ _ _ hanswer _ rfl
  · exact numbers_are_never_refused.2.2 _ _ herror

end FilterLang
