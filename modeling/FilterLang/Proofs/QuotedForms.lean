import FilterLang.Proofs.Digits
import FilterLang.Text.Quoted

/-!
# Quoted text reads back and delimits itself

Reading undoes writing for either quote, whatever follows the closing one.
Reading is also stable: once a closing quote has been found, more text behind it
changes nothing but the rest.  Both facts together show that no text that stops
before the closing quote is read as closed, since it would close at two places.
-/

namespace FilterLang
namespace Text
namespace Quoted

def IsQuote (q : Char) : Prop :=
  q = identQuote ∨ q = stringQuote

theorem IsQuote.ne_backslash {q : Char} (hq : IsQuote q) : q ≠ '\\' := by
  rcases hq with rfl | rfl <;> decide

theorem readBody_close (q : Char) (text : List Char) :
    readBody q (q :: text) = .closed [] text := by
  rw [readBody, if_pos rfl]

theorem readBody_plain {q c : Char} (hquote : c ≠ q) (hbackslash : c ≠ '\\')
    (text : List Char) :
    readBody q (c :: text) = (readBody q text).push c := by
  rw [readBody, if_neg hquote, if_neg hbackslash]

theorem readBody_escape {q d : Char} {text rest : List Char} (hquote : q ≠ '\\')
    (hescape : readEscape text = .decoded d rest) :
    readBody q ('\\' :: text) = (readBody q rest).push d := by
  rw [readBody, if_neg (Ne.symm hquote), if_pos rfl]
  split
  next hended => simp [hescape] at hended
  next d' rest' hdecoded =>
    rw [hescape] at hdecoded
    cases hdecoded
    rfl
  next hinvalid => simp [hescape] at hinvalid

/-! ## Runs of digits -/

theorem hexRun_append_drop (text : List Char) :
    hexRun text ++ text.drop (hexRun text).length = text :=
  List.prefix_iff_eq_append.1 ((List.take_prefix _ _).trans (List.takeWhile_prefix _))

theorem isSome_hexValue?_of_mem_hexRun {text : List Char} {c : Char} (hc : c ∈ hexRun text) :
    (hexValue? c).isSome := by
  have hall := List.all_takeWhile (p := fun c => (hexValue? c).isSome) (l := text)
  exact List.all_eq_true.1 hall c (List.mem_of_mem_take hc)

theorem length_hexRun_le (text : List Char) : (hexRun text).length ≤ 6 :=
  List.length_take_le ..

/-- Behind a run of fewer than six digits stands no digit. -/
theorem hexValue?_behind_hexRun {text : List Char} (h : (hexRun text).length ≠ 6) :
    ∀ c ∈ (text.drop (hexRun text).length).head?, hexValue? c = none := by
  have hrun : hexRun text = text.takeWhile fun c => (hexValue? c).isSome := by
    unfold hexRun at h ⊢
    rw [List.length_take] at h
    exact List.take_of_length_le (by omega)
  have hstop := List.head?_dropWhile_not (fun c => (hexValue? c).isSome) text
  rw [hrun, drop_length_takeWhile]
  intro c hc
  rw [Option.mem_def.1 hc] at hstop
  simpa using hstop

theorem hexRun_digits {digits more : List Char} (hhex : ∀ d ∈ digits, (hexValue? d).isSome)
    (hlength : digits.length ≤ 6)
    (hlongest : digits.length = 6 ∨ ∀ c ∈ more.head?, hexValue? c = none) :
    hexRun (digits ++ more) = digits := by
  unfold hexRun
  rw [List.takeWhile_append_of_pos hhex]
  rcases hlongest with hfull | hstop
  · rw [List.take_append_of_le_length (Nat.le_of_eq hfull.symm)]
    exact List.take_of_length_le hlength
  · have hnone : more.takeWhile (fun c => (hexValue? c).isSome) = [] := by
      cases more with
      | nil => rfl
      | cons c more => simp [hstop c rfl]
    rw [hnone, List.append_nil]
    exact List.take_of_length_le hlength

/-! ## Reading what is written -/

theorem readCode_digits {digits : List Char} {c : Char}
    (hhex : ∀ d ∈ digits, (hexValue? d).isSome) (hlength : digits.length ≤ 6)
    (hchar : charOfHex? digits = some c) (rest : List Char) :
    readCode ('{' :: (digits ++ '}' :: rest)) = .decoded c rest := by
  have hbrace : ∀ d ∈ ('}' :: rest).head?, hexValue? d = none := by
    rintro d ⟨⟩
    rfl
  have hrun := hexRun_digits hhex hlength (Or.inr hbrace)
  unfold readCode
  simp only [hrun, List.drop_left, hchar]

/-- The code of a control character, as it is written after `\u`, is its code. -/
theorem readCode_control {c : Char} (hc : isControl c = true) (rest : List Char) :
    readCode ('{' :: (padLeft 4 (Nat.toDigits 16 c.toNat) ++ '}' :: rest)) =
      .decoded c rest := by
  have hcode : c.toNat < 16 ^ 4 := by
    simp only [isControl, Bool.or_eq_true, Bool.and_eq_true, decide_eq_true_eq] at hc
    omega
  have hlength : (padLeft 4 (Nat.toDigits 16 c.toNat)).length = 4 := by
    have hdigits := (Nat.length_toDigits_le_iff (by decide) (by decide)).2 hcode
    rw [length_padLeft]
    omega
  have hhex : ∀ d ∈ padLeft 4 (Nat.toDigits 16 c.toNat), (hexValue? d).isSome := by
    intro d hd
    rcases mem_padLeft hd with rfl | hd
    · decide
    · exact isSome_hexValue?_of_mem_toDigits hd
  have hchar : charOfHex? (padLeft 4 (Nat.toDigits 16 c.toNat)) = some c := by
    have hnonempty : padLeft 4 (Nat.toDigits 16 c.toNat) ≠ [] := by
      intro hnil
      rw [hnil] at hlength
      contradiction
    have hvalid : c.toNat.isValidChar := c.valid
    unfold charOfHex?
    rw [hexNumber?_padLeft, hexNumber?_toDigits]
    simp [hnonempty, hvalid]
  exact readCode_digits hhex (by omega) hchar rest

theorem readEscape_code (text : List Char) : readEscape ('u' :: text) = readCode text := by
  simp [readEscape]

theorem readBody_writeChar {q : Char} (hq : IsQuote q) (c : Char) (rest : List Char) :
    readBody q (writeChar q c ++ rest) = (readBody q rest).push c := by
  have hbackslash := hq.ne_backslash
  unfold writeChar
  split
  next hactive =>
    refine readBody_escape hbackslash ?_
    rcases hactive with rfl | rfl
    · rcases hq with rfl | rfl <;> rfl
    · rfl
  next hactive =>
    rw [not_or] at hactive
    split
    next hc =>
      subst hc
      exact readBody_escape hbackslash rfl
    split
    next hc =>
      subst hc
      exact readBody_escape hbackslash rfl
    split
    next hc =>
      subst hc
      exact readBody_escape hbackslash rfl
    split
    next hcontrol =>
      simp only [List.cons_append, List.nil_append, List.append_assoc]
      refine readBody_escape hbackslash ?_
      rw [readEscape_code]
      exact readCode_control hcontrol rest
    next => exact readBody_plain hactive.1 hactive.2 rest

theorem readBody_written {q : Char} (hq : IsQuote q) (value rest : List Char) :
    readBody q (value.flatMap (writeChar q) ++ q :: rest) = .closed value rest := by
  induction value with
  | nil => exact readBody_close q rest
  | cons c value ih =>
      rw [List.flatMap_cons, List.append_assoc, readBody_writeChar hq, ih]
      rfl

/-! ## Stability -/

theorem hexRun_append {text rest : List Char} {c : Char}
    (hdrop : text.drop (hexRun text).length = c :: rest) (hc : (hexValue? c).isSome = false)
    (more : List Char) :
    hexRun (text ++ more) = hexRun text := by
  have hstop : (text.takeWhile fun c => (hexValue? c).isSome).length ≠ text.length := by
    intro hlength
    have hall : text.takeWhile (fun c => (hexValue? c).isSome) = text :=
      (List.takeWhile_prefix _).eq_of_length hlength
    have hmem : c ∈ text := by
      have hdropped : c ∈ text.drop (hexRun text).length := by simp [hdrop]
      exact List.mem_of_mem_drop hdropped
    rw [← hall] at hmem
    have hhex := List.all_eq_true.1 List.all_takeWhile c hmem
    rw [hc] at hhex
    contradiction
  unfold hexRun
  rw [List.takeWhile_append, if_neg hstop]

theorem readCode_append {text rest : List Char} {c : Char}
    (h : readCode text = .decoded c rest) (more : List Char) :
    readCode (text ++ more) = .decoded c (rest ++ more) := by
  unfold readCode at h
  split at h
  next body =>
    dsimp only at h
    split at h
    next rest' hdrop =>
      have hrun := hexRun_append hdrop (by decide) more
      have hlength : (hexRun body).length ≤ body.length := by
        unfold hexRun
        have := (List.takeWhile_sublist (l := body) fun c => (hexValue? c).isSome).length_le
        simp only [List.length_take]
        omega
      have hdrop' : (body ++ more).drop (hexRun body).length = '}' :: (rest' ++ more) := by
        rw [List.drop_append_of_le_length hlength, hdrop]
        rfl
      split at h
      next d hchar =>
        cases h
        simp only [readCode, List.cons_append, hrun, hdrop', hchar]
      next => cases h
    next => cases h
  next => cases h

theorem readEscape_append {text rest : List Char} {c : Char}
    (h : readEscape text = .decoded c rest) (more : List Char) :
    readEscape (text ++ more) = .decoded c (rest ++ more) := by
  cases text with
  | nil => cases h
  | cons d text =>
      simp only [readEscape, List.cons_append] at h ⊢
      iterate 4
        split at h
        next hd =>
          rw [if_pos hd]
          cases h
          rfl
        rename_i hd
        rw [if_neg hd]
      split at h
      next hd =>
        rw [if_pos hd]
        exact readCode_append h more
      next => cases h

theorem Reading.push_closed (c : Char) (value rest : List Char) :
    (Reading.closed value rest).push c = .closed (c :: value) rest := rfl

/-- Text behind the closing quote has no part in what is read. -/
theorem readBody_append {q : Char} {text value rest : List Char}
    (h : readBody q text = .closed value rest) (more : List Char) :
    readBody q (text ++ more) = .closed value (rest ++ more) := by
  fun_induction readBody q text generalizing value with
  | case1 => cases h
  | case2 text =>
      cases h
      exact readBody_close q _
  | case3 => cases h
  | case4 text d rest' hescape hshorter hquote ih =>
      obtain ⟨value', hbody, rfl⟩ := Reading.push_eq_closed h
      rw [List.cons_append, readBody_escape (Ne.symm hquote) (readEscape_append hescape more),
        ih hbody, Reading.push_closed]
  | case5 => cases h
  | case6 c text hquote hbackslash ih =>
      obtain ⟨value', hbody, rfl⟩ := Reading.push_eq_closed h
      rw [List.cons_append, readBody_plain hquote hbackslash, ih hbody, Reading.push_closed]

/-- A quoted form that is cut off before its end is not closed. -/
theorem readBody_ne_closed_of_prefix {q : Char} (hq : IsQuote q) {value cut more : List Char}
    (hcut : cut ++ more = value.flatMap (writeChar q) ++ [q]) (hmore : more ≠ []) :
    ∀ value' rest, readBody q cut ≠ .closed value' rest := by
  intro value' rest hclosed
  have hlong := readBody_append hclosed more
  rw [hcut, readBody_written hq value []] at hlong
  have hrest : rest ++ more = [] := (Reading.closed.inj hlong).2.symm
  exact hmore (List.append_eq_nil_iff.1 hrest).2

end Quoted
end Text
end FilterLang
