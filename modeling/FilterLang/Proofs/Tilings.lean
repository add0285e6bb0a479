import FilterLang.Proofs.LexerCalls
import FilterLang.Proofs.MaximalMunch
import Mathlib.Data.List.TakeWhile

/-!
# Tokens tile the text

The tokens of a text are read off texts that lie one behind the other in it, with
nothing but blanks between them.  Each of these texts, taken alone, is read as the
same token, since a lexeme does not depend on what was cut off behind it.

For the same reason a lexer that has read some tokens has read the tokens of the
text up to its cursor, whatever comes after.
-/

namespace FilterLang

open Text (isBlank)

-- What holds of each character of a list is decided along the list.
attribute [local instance (high)] List.decidableBAll

/-- The text is blanks, lexemes that are each read alone as their token, with
blanks in front of each, and blanks at the end. -/
inductive Tiles : List Char → List Token → Prop
  | blanks {blanks : List Char} (hblanks : ∀ c ∈ blanks, isBlank c = true) : Tiles blanks []
  | token {blanks front text : List Char} {t : Token} {tokens : List Token}
      (hblanks : ∀ c ∈ blanks, isBlank c = true) (hne : front ≠ [])
      (hhead : ∀ c ∈ front.head?, isBlank c = false)
      (halone : tokenize (String.ofList front) = .ok [t]) (hlater : Tiles text tokens) :
      Tiles (blanks ++ front ++ text) (t :: tokens)

theorem Tiles.length_le {text : List Char} {tokens : List Token} (h : Tiles text tokens) :
    tokens.length ≤ text.countP (!isBlank ·) := by
  induction h with
  | blanks => exact Nat.zero_le _
  | @token _ front _ _ _ _ hne hhead _ _ ih =>
      obtain ⟨c, tail, rfl⟩ := List.exists_cons_of_ne_nil hne
      have hcount : 0 < (c :: tail).countP (!isBlank ·) :=
        List.countP_pos_iff.2 ⟨c, List.mem_cons_self, by simp [hhead c rfl]⟩
      simp only [List.countP_append, List.length_cons]
      omega

/-! ## One lexeme -/

/-- The lexeme at the start of a text, none of which is a blank. -/
structure Stands (front : List Char) (t : Token) (rest : List Char) : Prop where
  notBlank : ∀ c ∈ front.head?, isBlank c = false
  longest : LongestLexeme (front ++ rest) front t
  timely : ¬ Mistimed (front ++ rest)

namespace Stands

variable {front middle rest : List Char} {t : Token}

theorem ne_end (h : Stands front t rest) : t ≠ .endOfInput := by
  rintro rfl
  cases h.longest.lexeme

theorem cut (h : Stands front t (middle ++ rest)) : Stands front t middle := by
  have hlongest := h.longest
  have htimely := h.timely
  rw [← List.append_assoc] at hlongest htimely
  exact ⟨h.notBlank, (hlongest.cut htimely).1, (hlongest.cut htimely).2⟩

theorem next (h : Stands front t rest) {blanks : List Char}
    (hblanks : ∀ c ∈ blanks, isBlank c = true) :
    Scan.next (blanks ++ front ++ rest) = ⟨.ok t, rest⟩ := by
  obtain ⟨c, tail, rfl⟩ := List.exists_cons_of_ne_nil h.longest.lexeme.ne_nil
  have hc : ¬ isBlank c = true := by simp [h.notBlank c rfl]
  rw [Scan.next, List.append_assoc, List.dropWhile_append_of_pos hblanks, List.cons_append,
    List.dropWhile_cons_of_neg hc]
  have hne : c :: (tail ++ rest) ≠ [] := List.cons_ne_nil _ _
  exact (lexeme_eq_ok_iff hne).2 ⟨h.timely, _, h.longest, rfl⟩

end Stands

theorem exists_stands {text rest : List Char} {t : Token} (h : Scan.next text = ⟨.ok t, rest⟩)
    (ht : t ≠ .endOfInput) :
    ∃ blanks front, (∀ c ∈ blanks, isBlank c = true) ∧ blanks ++ front ++ rest = text ∧
      Stands front t rest := by
  have hblanks : ∀ c ∈ text.takeWhile isBlank, isBlank c = true := fun c hc =>
    List.mem_takeWhile_imp hc
  have hsplit := List.takeWhile_append_dropWhile (p := isBlank) (l := text)
  have hhead := List.head?_dropWhile_not isBlank text
  rw [Scan.next] at h
  generalize text.dropWhile isBlank = shown at h hsplit hhead
  have hne : shown ≠ [] := by
    rintro rfl
    cases h
    contradiction
  obtain ⟨htimely, front, hlongest, rfl⟩ := (lexeme_eq_ok_iff hne).1 h
  obtain ⟨c, tail, rfl⟩ := List.exists_cons_of_ne_nil hlongest.lexeme.ne_nil
  refine ⟨_, c :: tail, hblanks, by rw [List.append_assoc, hsplit], ?_, hlongest, htimely⟩
  intro d hd
  cases hd
  simpa using hhead

/-! ## Lexeme after lexeme -/

/-- The start of a text up to the last of its first lexemes, and the text after it. -/
inductive Takes : List Char → List Token → List Char → Prop
  | nil (rest : List Char) : Takes [] [] rest
  | cons {blanks front read rest : List Char} {t : Token} {tokens : List Token}
      (hblanks : ∀ c ∈ blanks, isBlank c = true) (hfront : Stands front t (read ++ rest))
      (hlater : Takes read tokens rest) : Takes (blanks ++ front ++ read) (t :: tokens) rest

theorem scanAll_blanks {blanks : List Char} (hblanks : ∀ c ∈ blanks, isBlank c = true) :
    scanAll blanks = .ok [] := by
  refine scanAll_of_end ?_
  rw [Scan.next, List.dropWhile_eq_nil_iff.2 hblanks]
  rfl

theorem Stands.tokenize_alone {front rest : List Char} {t : Token} (h : Stands front t rest) :
    tokenize (String.ofList front) = .ok [t] := by
  have hcut : Stands front t [] := h.cut
  have hnext := hcut.next (List.forall_mem_nil _)
  rw [List.nil_append, List.append_nil] at hnext
  rw [tokenize_eq_ok_iff, String.toList_ofList, scanAll_of_next hnext h.ne_end,
    scanAll_blanks (List.forall_mem_nil _)]
  rfl

namespace Takes

variable {read rest : List Char} {tokens : List Token}

/-- The text up to a place among the blanks behind the last lexeme is read as the tokens. -/
theorem scanAll_read_blanks {blanks more : List Char} (h : Takes read tokens (blanks ++ more))
    (hlast : ∀ c ∈ blanks, isBlank c = true) : scanAll (read ++ blanks) = .ok tokens := by
  generalize hrest : blanks ++ more = rest at h
  induction h with
  | nil => exact scanAll_blanks hlast
  | cons hblanks hfront _ ih =>
      rw [← hrest, ← List.append_assoc] at hfront
      rw [List.append_assoc, scanAll_of_next (hfront.cut.next hblanks) hfront.ne_end, ih hrest]
      rfl

theorem scanAll_read (h : Takes read tokens rest) : scanAll read = .ok tokens := by
  have hempty : Takes read tokens ([] ++ rest) := h
  have hread := hempty.scanAll_read_blanks (List.forall_mem_nil _)
  rwa [List.append_nil] at hread

theorem tiles (h : Takes read tokens rest) (hrest : ∀ c ∈ rest, isBlank c = true) :
    Tiles (read ++ rest) tokens := by
  induction h with
  | nil => exact .blanks hrest
  | cons hblanks hfront _ ih =>
      rw [List.append_assoc]
      exact .token hblanks hfront.longest.lexeme.ne_nil hfront.notBlank hfront.tokenize_alone
        (ih hrest)

end Takes

theorem exists_takes_of_scanAll {text : List Char} {tokens : List Token}
    (h : scanAll text = .ok tokens) :
    ∃ read blanks, Takes read tokens blanks ∧ (∀ c ∈ blanks, isBlank c = true) ∧
      read ++ blanks = text := by
  fun_induction scanAll text generalizing tokens with
  | case1 => cases h
  | case2 text hend =>
      cases h
      exact ⟨[], text, .nil text, List.dropWhile_eq_nil_iff.1 (Scan.dropWhile_of_end hend), rfl⟩
  | case3 text t hresult hend hshorter ih =>
      have hnext : Scan.next text = ⟨.ok t, (Scan.next text).rest⟩ := by rw [← hresult]
      obtain ⟨blanks, front, hblanks, hsplit, hfront⟩ := exists_stands hnext hend
      generalize (Scan.next text).rest = rest at h ih hsplit hfront
      cases hlater : scanAll rest with
      | error m =>
          rw [hlater] at h
          cases h
      | ok later =>
          rw [hlater] at h
          cases h
          obtain ⟨read, last, hread, hlast, rfl⟩ := ih hlater
          refine ⟨_, last, .cons hblanks hfront hread, hlast, ?_⟩
          rw [← hsplit, List.append_assoc _ read]

theorem tiles_of_tokenize {text : String} {tokens : List Token} (h : tokenize text = .ok tokens) :
    Tiles text.toList tokens := by
  obtain ⟨read, blanks, hread, hblanks, hsplit⟩ :=
    exists_takes_of_scanAll (tokenize_eq_ok_iff.1 h)
  rw [← hsplit]
  exact hread.tiles hblanks

namespace Lexer

/-- Tokens given by one call after the other are those of the lexemes passed. -/
theorem exists_takes_of_run {lexer after : Lexer} {tokens : List Token}
    (hrun : lexer.run (List.replicate tokens.length .token) =
      (tokens.map fun t => .token (.ok t), after))
    (hend : .endOfInput ∉ tokens) :
    ∃ read, Takes read tokens after.rest ∧ read ++ after.rest = lexer.rest ∧
      after.cursor = lexer.cursor + read.length := by
  induction tokens generalizing lexer with
  | nil =>
      obtain rfl : lexer = after := congrArg Prod.snd hrun
      exact ⟨[], .nil _, rfl, rfl⟩
  | cons t tokens ih =>
      rw [List.length_cons, List.replicate_succ, run, call, List.map_cons, Prod.mk.injEq,
        List.cons.injEq, Answer.token.injEq] at hrun
      obtain ⟨⟨htoken, hanswers⟩, hafter⟩ := hrun
      obtain ⟨ht, hlater⟩ := List.ne_and_not_mem_of_not_mem_cons hend
      have hresult := nextToken_eq_ok_iff.1 htoken
      have hnext : Scan.next lexer.rest = ⟨.ok t, (Scan.next lexer.rest).rest⟩ := by
        rw [← hresult]
      obtain ⟨blanks, front, hblanks, hsplit, hfront⟩ := exists_stands hnext (Ne.symm ht)
      have hstep : lexer.nextToken.2.rest = (Scan.next lexer.rest).rest := rest_advance hsplit
      have hcursor : lexer.nextToken.2.cursor = lexer.cursor + (blanks ++ front).length :=
        cursor_advance hsplit
      obtain ⟨read, hread, hrest, hlength⟩ := ih (Prod.ext hanswers hafter) hlater
      rw [hstep] at hrest
      rw [← hrest] at hfront hsplit
      refine ⟨_, .cons hblanks hfront hread, ?_, ?_⟩
      · rw [← hsplit, List.append_assoc _ read]
      · rw [hlength, hcursor, Nat.add_assoc, ← List.length_append]

end Lexer

/-- A text that is read as tokens is tiled by them.  Any text is read as the tokens
given so far up to where they were read. -/
theorem tokens_tile_the_text (text : String) :
    (∀ tokens, tokenize text = .ok tokens →
      Tiles text.toList tokens ∧ tokens.length ≤ text.toList.countP (!isBlank ·)) ∧
    ∀ (tokens : List Token) (lexer : Lexer),
      (Lexer.ofText text).run (List.replicate tokens.length .token) =
        (tokens.map fun t => .token (.ok t), lexer) →
      .endOfInput ∉ tokens →
      tokenize (String.ofList (text.toList.take lexer.cursor)) = .ok tokens := by
  constructor
  · intro tokens h
    have htiles := tiles_of_tokenize h
    exact ⟨htiles, htiles.length_le⟩
  · intro tokens lexer hrun hend
    obtain ⟨read, hread, hrest, hcursor⟩ := Lexer.exists_takes_of_run hrun hend
    have hsplit : read ++ lexer.rest = text.toList := hrest
    have hlength : lexer.cursor = read.length := hcursor.trans (Nat.zero_add _)
    rw [hlength, ← hsplit, List.take_left, tokenize_eq_ok_iff, String.toList_ofList]
    exact hread.scanAll_read

/-- A text with blanks around its tokens, and one whose lone mark comes after them. -/
theorem tokens_tile_the_text_at_a_comparison :
    (tokenize " cpu>=load\t" = .ok [.ident "cpu", .symbol .gtEq, .ident "load"] ∧
      Tiles " cpu>=load\t".toList [.ident "cpu", .symbol .gtEq, .ident "load"]) ∧
    (Lexer.ofText "cpu>= !").run (List.replicate 2 .token) =
        ([.token (.ok (.ident "cpu")), .token (.ok (.symbol .gtEq))],
          ⟨"cpu>= !".toList, 5⟩) ∧
      tokenize (String.ofList ("cpu>= !".toList.take 5)) =
        .ok [.ident "cpu", .symbol .gtEq] := by
  have htokens :
      tokenize " cpu>=load\t" = .ok [.ident "cpu", .symbol .gtEq, .ident "load"] := by
    have hcpu : Scan.next " cpu>=load\t".toList = ⟨.ok (.ident "cpu"), ">=load\t".toList⟩ := rfl
    have hsign : Scan.next ">=load\t".toList = ⟨.ok (.symbol .gtEq), "load\t".toList⟩ := rfl
    have hload : Scan.next "load\t".toList = ⟨.ok (.ident "load"), "\t".toList⟩ := rfl
    rw [tokenize_eq_ok_iff, scanAll_of_next hcpu (by decide), scanAll_of_next hsign (by decide),
      scanAll_of_next hload (by decide), scanAll_blanks (by decide)]
    rfl
  have hrun : (Lexer.ofText "cpu>= !").run (List.replicate 2 .token) =
      ([.token (.ok (.ident "cpu")), .token (.ok (.symbol .gtEq))],
        ⟨"cpu>= !".toList, 5⟩) := by
    rfl
  refine ⟨⟨htokens, ((tokens_tile_the_text _).1 _ htokens).1⟩, hrun, ?_⟩
  exact (tokens_tile_the_text "cpu>= !").2 [.ident "cpu", .symbol .gtEq]
    ⟨"cpu>= !".toList, 5⟩ hrun (by decide)

end FilterLang
