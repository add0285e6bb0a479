import FilterLang.Proofs.LexemeBoundaries

/-!
# Calls in any order

A lexer may be asked for its next token or for its next item, in any order.
The cursor is also the mark of a lexer that has stopped: an item that is an error
sets it one place beyond the end.  A token that is an error leaves it where
reading stopped, and a later call goes on from there.

`Reached` is what the answers so far say about the lexer that gave them.  Every
call keeps it, so it holds after any run of calls.
-/

namespace FilterLang
namespace Lexer

/-- A use of one of the two ways to go on. -/
inductive Call where
  | token
  | item

inductive Answer where
  | token (answer : Except LexError Token)
  | item (answer : Option (Except LexError Token))

namespace Answer

/-- Nothing was left. -/
def Ends : Answer → Prop
  | token answer => answer = .ok .endOfInput
  | item answer => answer = none

/-- An item that is an error is the last one. -/
def Fails : Answer → Prop
  | token _ => False
  | item answer => ∃ e, answer = some (.error e)

def Gives (t : Token) : Answer → Prop
  | token answer => answer = .ok t
  | item answer => answer = some (.ok t)

end Answer

def call (lexer : Lexer) : Call → Answer × Lexer
  | .token => (.token lexer.nextToken.1, lexer.nextToken.2)
  | .item => (.item lexer.next?.1, lexer.next?.2)

/-- The answers to calls made one after the other, and the lexer after the last. -/
def run (lexer : Lexer) : List Call → List Answer × Lexer
  | [] => ([], lexer)
  | c :: calls =>
      let later := (lexer.call c).2.run calls
      ((lexer.call c).1 :: later.1, later.2)

/-! ## One call -/

theorem nextToken_eq_ok_iff {lexer : Lexer} {t : Token} :
    lexer.nextToken.1 = .ok t ↔ (Scan.next lexer.rest).result = .ok t :=
  mapError_eq_ok_iff

theorem cursor_nextToken (lexer : Lexer) :
    lexer.nextToken.2.cursor =
      lexer.cursor +
        (lexer.source.length - lexer.cursor - (Scan.next lexer.rest).rest.length) := by
  rw [← List.length_drop]
  rfl

theorem cursor_nextToken_le {lexer : Lexer} (h : lexer.cursor ≤ lexer.source.length) :
    lexer.nextToken.2.cursor ≤ lexer.source.length := by
  rw [cursor_nextToken]
  omega

theorem lt_cursor_nextToken {lexer : Lexer} {t : Token} (h : lexer.nextToken.1 = .ok t)
    (ht : t ≠ .endOfInput) : lexer.cursor < lexer.nextToken.2.cursor := by
  have hshorter := Scan.next_shorter (nextToken_eq_ok_iff.1 h) ht
  have hrest : lexer.rest.length = lexer.source.length - lexer.cursor := List.length_drop
  rw [cursor_nextToken]
  omega

/-- Nothing is left once the end is answered. -/
theorem rest_of_end {lexer : Lexer} (h : lexer.nextToken.1 = .ok .endOfInput) :
    lexer.nextToken.2.rest = [] := by
  have hblanks := Scan.dropWhile_of_end (nextToken_eq_ok_iff.1 h)
  have hrest : (Scan.next lexer.rest).rest = [] := by
    rw [Scan.next, hblanks]
    rfl
  have hcursor := lexer.cursor_nextToken
  rw [hrest] at hcursor
  have hbeyond : lexer.source.length ≤ lexer.nextToken.2.cursor := by
    simp only [List.length_nil] at hcursor
    omega
  exact List.drop_eq_nil_of_le hbeyond

theorem nextToken_of_rest_nil {lexer : Lexer} (h : lexer.rest = []) :
    lexer.nextToken = (.ok .endOfInput, lexer) := by
  unfold nextToken advance
  rw [h]
  rfl

theorem rest_halt (lexer : Lexer) : lexer.halt.rest = [] :=
  List.drop_eq_nil_of_le (Nat.le_succ _)

/-- What one call can do: its answer, and the lexer after it. -/
inductive Step (lexer : Lexer) : Answer → Lexer → Prop
  | token : Step lexer (.token lexer.nextToken.1) lexer.nextToken.2
  | stopped (h : lexer.source.length < lexer.cursor) : Step lexer (.item none) lexer
  | ended (hle : lexer.cursor ≤ lexer.source.length)
      (htoken : lexer.nextToken.1 = .ok .endOfInput) :
      Step lexer (.item none) lexer.nextToken.2
  | given (hle : lexer.cursor ≤ lexer.source.length) {t : Token} (ht : t ≠ .endOfInput)
      (htoken : lexer.nextToken.1 = .ok t) :
      Step lexer (.item (some (.ok t))) lexer.nextToken.2
  | failed (hle : lexer.cursor ≤ lexer.source.length) {e : LexError}
      (htoken : lexer.nextToken.1 = .error e) : Step lexer (.item (some (.error e))) lexer.halt

theorem step_next? (lexer : Lexer) : Step lexer (.item lexer.next?.1) lexer.next?.2 := by
  unfold next?
  split
  next h => exact .stopped h
  next h =>
    have hle := Nat.le_of_not_lt h
    split
    next after htoken =>
      obtain rfl : lexer.nextToken.2 = after := congrArg Prod.snd htoken
      exact .ended hle (congrArg Prod.fst htoken)
    next t after hend htoken =>
      obtain rfl : lexer.nextToken.2 = after := congrArg Prod.snd htoken
      exact .given hle hend (congrArg Prod.fst htoken)
    next e after htoken =>
      obtain rfl : lexer.nextToken.2 = after := congrArg Prod.snd htoken
      exact .failed hle (congrArg Prod.fst htoken)

theorem step_call (lexer : Lexer) (c : Call) :
    Step lexer (lexer.call c).1 (lexer.call c).2 := by
  cases c with
  | token => exact .token
  | item => exact step_next? lexer

namespace Step

variable {lexer after : Lexer} {answer : Answer}

theorem source (h : Step lexer answer after) : after.source = lexer.source := by
  cases h with
  | _ => rfl

theorem cursor_le (h : Step lexer answer after) : lexer.cursor ≤ after.cursor := by
  have htoken : lexer.cursor ≤ lexer.nextToken.2.cursor := Nat.le_add_right ..
  cases h with
  | token | ended | given => exact htoken
  | stopped => exact Nat.le_refl _
  | failed hle => exact Nat.le_succ_of_le hle

theorem cursor_lt (h : Step lexer answer after) {t : Token} (ht : t ≠ .endOfInput)
    (hgives : answer.Gives t) : lexer.cursor < after.cursor := by
  cases h with
  | token => exact lt_cursor_nextToken hgives ht
  | given _ hend htoken => exact lt_cursor_nextToken htoken hend
  | stopped | ended | failed => cases hgives

theorem le_length (h : Step lexer answer after) (hfails : ¬ answer.Fails)
    (hle : lexer.cursor ≤ lexer.source.length) : after.cursor ≤ lexer.source.length := by
  cases h with
  | token | ended | given => exact cursor_nextToken_le hle
  | stopped => exact hle
  | failed => exact absurd ⟨_, rfl⟩ hfails

theorem halted (h : Step lexer answer after) (hfails : answer.Fails) :
    after.cursor = lexer.source.length + 1 := by
  cases h with
  | token => cases hfails
  | stopped | ended | given =>
      obtain ⟨e, he⟩ := hfails
      cases he
  | failed => rfl

theorem rest_eq_nil (h : Step lexer answer after) (hends : answer.Ends) : after.rest = [] := by
  cases h with
  | token => exact rest_of_end hends
  | stopped hlt => exact List.drop_eq_nil_of_le (Nat.le_of_lt hlt)
  | ended _ htoken => exact rest_of_end htoken
  | given | failed => cases hends

/-- A lexer with no text left stays as it is and answers so. -/
theorem of_rest_nil (h : Step lexer answer after) (hrest : lexer.rest = []) :
    answer.Ends ∧ after = lexer := by
  have hend := nextToken_of_rest_nil hrest
  cases h with
  | token => exact ⟨congrArg Prod.fst hend, congrArg Prod.snd hend⟩
  | stopped => exact ⟨rfl, rfl⟩
  | ended => exact ⟨rfl, congrArg Prod.snd hend⟩
  | given _ ht htoken =>
      rw [hend] at htoken
      cases htoken
      contradiction
  | failed _ htoken =>
      rw [hend] at htoken
      cases htoken

/-- An item takes some of the text, or is the last one and leaves none. -/
theorem length_rest_lt {result : Except LexError Token}
    (h : Step lexer (.item (some result)) after) : after.rest.length < lexer.rest.length := by
  have hne : lexer.rest ≠ [] := fun hrest => nomatch (h.of_rest_nil hrest).1
  have hpositive := List.length_pos_iff.2 hne
  cases h with
  | given _ ht htoken =>
      have hlt := lt_cursor_nextToken htoken ht
      have hsource : lexer.nextToken.2.source = lexer.source := rfl
      simp only [rest, List.length_drop, hsource] at hpositive ⊢
      omega
  | failed =>
      rw [rest_halt]
      exact hpositive

end Step

/-! ## Any run of calls -/

def Failed (answers : List Answer) : Prop :=
  ∃ a ∈ answers, a.Fails

def Ended (answers : List Answer) : Prop :=
  ∃ a ∈ answers, a.Ends

/-- What the answers so far say about the lexer that gave them. -/
structure Reached (text : List Char) (answers : List Answer) (lexer : Lexer) : Prop where
  source : lexer.source = text
  cursor_le : ¬ Failed answers → lexer.cursor ≤ text.length
  halted : Failed answers → lexer.cursor = text.length + 1
  ended : Ended answers → lexer.rest = []

theorem reached_ofText (text : String) : Reached text.toList [] (ofText text) where
  source := rfl
  cursor_le _ := Nat.zero_le _
  halted h := by simp [Failed] at h
  ended h := by simp [Ended] at h

theorem Reached.rest_eq_nil {text : List Char} {answers : List Answer} {lexer : Lexer}
    (h : Reached text answers lexer) (hstopped : Failed answers ∨ Ended answers) :
    lexer.rest = [] := by
  rcases hstopped with hfailed | hended
  · refine List.drop_eq_nil_of_le ?_
    rw [h.source, h.halted hfailed]
    exact Nat.le_succ _
  · exact h.ended hended

theorem Reached.step {text : List Char} {answers : List Answer} {lexer after : Lexer}
    {answer : Answer} (h : Reached text answers lexer) (hstep : Step lexer answer after) :
    Reached text (answers ++ [answer]) after where
  source := hstep.source.trans h.source
  cursor_le hnone := by
    have hbefore : ¬ Failed answers := fun ⟨a, ha, hfails⟩ =>
      hnone ⟨a, List.mem_append_left _ ha, hfails⟩
    have hnow : ¬ answer.Fails := fun hfails =>
      hnone ⟨_, List.mem_append_right _ List.mem_cons_self, hfails⟩
    have hle := h.cursor_le hbefore
    rw [← h.source] at hle ⊢
    exact hstep.le_length hnow hle
  halted := by
    rintro ⟨a, ha, hfails⟩
    rcases List.mem_append.1 ha with ha | ha
    · have hfailed : Failed answers := ⟨a, ha, hfails⟩
      rw [(hstep.of_rest_nil (h.rest_eq_nil (Or.inl hfailed))).2, h.halted hfailed]
    · rw [List.mem_singleton.1 ha] at hfails
      rw [hstep.halted hfails, h.source]
  ended := by
    rintro ⟨a, ha, hends⟩
    rcases List.mem_append.1 ha with ha | ha
    · have hrest := h.rest_eq_nil (Or.inr ⟨a, ha, hends⟩)
      rwa [(hstep.of_rest_nil hrest).2]
    · rw [List.mem_singleton.1 ha] at hends
      exact hstep.rest_eq_nil hends

theorem Reached.run {text : List Char} {answers : List Answer} {lexer : Lexer}
    (h : Reached text answers lexer) (calls : List Call) :
    Reached text (answers ++ (lexer.run calls).1) (lexer.run calls).2 := by
  induction calls generalizing answers lexer with
  | nil => simpa [Lexer.run] using h
  | cons c calls ih =>
      have hlater := ih (h.step (step_call lexer c))
      rwa [List.append_assoc] at hlater

theorem none_mem_run_item {lexer : Lexer} {count : Nat} (h : lexer.rest.length < count) :
    .item none ∈ (lexer.run (List.replicate count .item)).1 := by
  induction count generalizing lexer with
  | zero => exact absurd h (Nat.not_lt_zero _)
  | succ count ih =>
      have hstep := step_next? lexer
      rw [List.replicate_succ, run, call]
      cases hitem : lexer.next?.1 with
      | none => exact List.mem_cons_self
      | some result =>
          rw [hitem] at hstep
          have hshorter := hstep.length_rest_lt
          exact List.mem_cons_of_mem _ (ih (Nat.lt_of_lt_of_le hshorter (Nat.le_of_lt_succ h)))

/-- Before an item has failed, the next item is the next token unless that is the
end. -/
theorem next?_of_cursor_le {lexer : Lexer} (hle : lexer.cursor ≤ lexer.source.length) :
    (lexer.next?.1 = none ↔ lexer.nextToken.1 = .ok .endOfInput) ∧
      (lexer.nextToken.1 ≠ .ok .endOfInput → lexer.next?.1 = some lexer.nextToken.1) ∧
      ((∀ e, lexer.next?.1 ≠ some (.error e)) → lexer.next?.2 = lexer.nextToken.2) := by
  have hstep := step_next? lexer
  generalize lexer.next?.1 = item, lexer.next?.2 = after at hstep
  cases hstep with
  | stopped hlt => exact absurd hle (Nat.not_le_of_lt hlt)
  | ended _ htoken => simp [htoken]
  | given _ ht htoken => simp [htoken, ht]
  | failed _ htoken => simp [htoken]

/-- What a lexer is after any calls in any order, and what the next call can do. -/
theorem after_any_calls (text : String) (calls : List Call) {answers : List Answer}
    {lexer : Lexer} (hrun : (ofText text).run calls = (answers, lexer)) :
    lexer.source = text.toList ∧
    (lexer.cursor ≤ text.length ∨ lexer.cursor = text.length + 1 ∧ Failed answers) ∧
    (∀ c, lexer.cursor ≤ (lexer.call c).2.cursor) ∧
    (∀ c t, (lexer.call c).1.Gives t → t ≠ .endOfInput →
      lexer.cursor < (lexer.call c).2.cursor) ∧
    (¬ Failed answers →
      (lexer.next?.1 = none ↔ lexer.nextToken.1 = .ok .endOfInput) ∧
      (lexer.nextToken.1 ≠ .ok .endOfInput → lexer.next?.1 = some lexer.nextToken.1) ∧
      ((∀ e, lexer.next?.1 ≠ some (.error e)) → lexer.next?.2 = lexer.nextToken.2)) ∧
    (Failed answers ∨ Ended answers →
      lexer.next?.1 = none ∧ lexer.nextToken.1 = .ok .endOfInput) ∧
    .item none ∈ (lexer.run (List.replicate (text.length + 1) .item)).1 := by
  have hreached := (reached_ofText text).run calls
  rw [hrun, List.nil_append] at hreached
  have hlength : text.toList.length = text.length := String.length_toList
  refine ⟨hreached.source, ?_, ?_, ?_, ?_, ?_, ?_⟩
  · by_cases hfailed : Failed answers
    · exact Or.inr ⟨hlength ▸ hreached.halted hfailed, hfailed⟩
    · exact Or.inl (hlength ▸ hreached.cursor_le hfailed)
  · intro c
    exact (step_call lexer c).cursor_le
  · intro c t hgives ht
    exact (step_call lexer c).cursor_lt ht hgives
  · intro hfailed
    have hle := hreached.cursor_le hfailed
    rw [← hreached.source] at hle
    exact next?_of_cursor_le hle
  · intro hstopped
    have hrest := hreached.rest_eq_nil hstopped
    exact ⟨((step_call lexer .item).of_rest_nil hrest).1,
      ((step_call lexer .token).of_rest_nil hrest).1⟩
  · refine none_mem_run_item ?_
    rw [rest, List.length_drop, hreached.source, hlength]
    omega

/-- A token that is an error leaves the cursor at the lone mark, so the next item is
an error too, and no call finds anything after it. -/
theorem after_any_calls_at_a_lone_mark :
    ((ofText "a !b").run [.item, .token] =
        ([.item (some (.ok (.ident "a"))), .token (.error ⟨.unexpectedChar '!', ⟨1, 3⟩⟩)],
          ⟨"a !b".toList, 2⟩) ∧
      ¬ Failed [.item (some (.ok (.ident "a"))),
        .token (.error ⟨.unexpectedChar '!', ⟨1, 3⟩⟩)] ∧
      (Lexer.next? ⟨"a !b".toList, 2⟩).1 = some (Lexer.nextToken ⟨"a !b".toList, 2⟩).1) ∧
    (ofText "a !b").run [.item, .item, .token] =
        ([.item (some (.ok (.ident "a"))), .item (some (.error ⟨.unexpectedChar '!', ⟨1, 3⟩⟩)),
          .token (.ok .endOfInput)], ⟨"a !b".toList, 5⟩) ∧
      Failed [.item (some (.ok (.ident "a"))), .item (some (.error ⟨.unexpectedChar '!', ⟨1, 3⟩⟩)),
        .token (.ok .endOfInput)] ∧
      (Lexer.next? ⟨"a !b".toList, 5⟩).1 = none := by
  have htoken : (ofText "a !b").run [.item, .token] =
      ([.item (some (.ok (.ident "a"))), .token (.error ⟨.unexpectedChar '!', ⟨1, 3⟩⟩)],
        ⟨"a !b".toList, 2⟩) := by
    rfl
  have hitem : (ofText "a !b").run [.item, .item, .token] =
      ([.item (some (.ok (.ident "a"))), .item (some (.error ⟨.unexpectedChar '!', ⟨1, 3⟩⟩)),
        .token (.ok .endOfInput)], ⟨"a !b".toList, 5⟩) := by
    rfl
  have hnone : ¬ Failed [.item (some (.ok (.ident "a"))),
      .token (.error ⟨.unexpectedChar '!', ⟨1, 3⟩⟩)] := by
    simp [Failed, Answer.Fails]
  have hfailed : Failed [.item (some (.ok (.ident "a"))),
      .item (some (.error ⟨.unexpectedChar '!', ⟨1, 3⟩⟩)), .token (.ok .endOfInput)] := by
    simp [Failed, Answer.Fails]
  refine ⟨⟨htoken, hnone, ?_⟩, hitem, hfailed, ?_⟩
  · refine ((after_any_calls "a !b" _ htoken).2.2.2.2.1 hnone).2.1 ?_
    exact fun h => nomatch h
  · exact ((after_any_calls "a !b" _ hitem).2.2.2.2.2.1 (Or.inl hfailed)).1

end Lexer
end FilterLang
