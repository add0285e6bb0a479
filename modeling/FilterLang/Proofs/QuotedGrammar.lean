import FilterLang.Proofs.QuotedForms
import Mathlib.Data.List.Induction

/-!
# The grammar of quoted text

Between two quotes stand items: a character that is neither the active quote nor
a backslash, or a backslash with an escape.  A text is read as closed exactly if
it begins with items and the active quote, and then the value is what the items
decode to.  No item begins with the active quote, so there is one such front.
-/

namespace FilterLang
namespace Text
namespace Quoted

/-- What may follow a backslash, and the character that it stands for. -/
inductive Escapes : List Char → Char → Prop
  | newline : Escapes ['n'] '\n'
  | tab : Escapes ['t'] '\t'
  | carriageReturn : Escapes ['r'] '\r'
  | itself {c : Char} (hc : c = '"' ∨ c = '\'' ∨ c = '\\') : Escapes [c] c
  | code {digits : List Char} {c : Char} (hne : digits ≠ []) (hlength : digits.length ≤ 6)
      (hcode : hexNumber? digits = some c.toNat) :
      Escapes ('u' :: '{' :: digits ++ ['}']) c

/-- The text between two quotes `q`, and what it decodes to. -/
inductive Items (q : Char) : List Char → List Char → Prop
  | nil : Items q [] []
  | plain {c : Char} {text value : List Char} (hquote : c ≠ q) (hbackslash : c ≠ '\\')
      (h : Items q text value) : Items q (c :: text) (c :: value)
  | escape {sequence text value : List Char} {c : Char} (hescape : Escapes sequence c)
      (h : Items q text value) : Items q ('\\' :: sequence ++ text) (c :: value)

/-! ## Escapes -/

theorem isSome_hexValue?_of_hexNumber? {digits : List Char} {n : Nat}
    (h : hexNumber? digits = some n) : ∀ c ∈ digits, (hexValue? c).isSome := by
  induction digits using List.reverseRecOn generalizing n with
  | nil => simp
  | append_singleton digits d ih =>
      rw [hexNumber?_append_singleton] at h
      obtain ⟨m, hm, hd⟩ := Option.bind_eq_some_iff.1 h
      obtain ⟨value, hvalue, -⟩ := Option.map_eq_some_iff.1 hd
      rw [List.forall_mem_append]
      refine ⟨ih hm, ?_⟩
      simp [hvalue]

theorem readEscape_of_escapes {sequence : List Char} {c : Char} (h : Escapes sequence c)
    (rest : List Char) : readEscape (sequence ++ rest) = .decoded c rest := by
  cases h with
  | newline => rfl
  | tab => rfl
  | carriageReturn => rfl
  | itself hc => rcases hc with rfl | rfl | rfl <;> rfl
  | @code digits c hne hlength hcode =>
      have hhex := isSome_hexValue?_of_hexNumber? hcode
      have hvalid : c.toNat.isValidChar := c.valid
      have hchar : charOfHex? digits = some c := by
        simp [charOfHex?, hne, hcode, hvalid]
      simp only [List.cons_append, List.append_assoc, List.nil_append]
      rw [readEscape_code, readCode_digits hhex hlength hchar]

theorem escapes_of_readCode {text rest : List Char} {c : Char}
    (h : readCode text = .decoded c rest) :
    ∃ sequence, Escapes ('u' :: sequence) c ∧ text = sequence ++ rest := by
  unfold readCode at h
  split at h
  next body =>
    dsimp only at h
    split at h
    next rest' hdrop =>
      split at h
      next d hchar =>
        cases h
        have hbody : hexRun body ++ '}' :: rest = body := by
          rw [← hdrop]
          exact hexRun_append_drop body
        have hlength := length_hexRun_le body
        unfold charOfHex? at hchar
        split at hchar
        next => contradiction
        next hne =>
          obtain ⟨code, hcode, hvalid⟩ := Option.bind_eq_some_iff.1 hchar
          split at hvalid
          next hscalar =>
            have hcode' : (Char.ofNat code).toNat = code := by
              rw [Char.ofNat, dif_pos hscalar]
              rfl
            cases hvalid
            refine ⟨'{' :: hexRun body ++ ['}'], .code ?_ hlength ?_, ?_⟩
            · simpa using hne
            · rw [hcode, hcode']
            · simp [hbody]
          next => contradiction
      next => contradiction
    next => contradiction
  next => contradiction

theorem escapes_of_readEscape {text rest : List Char} {c : Char}
    (h : readEscape text = .decoded c rest) :
    ∃ sequence, Escapes sequence c ∧ text = sequence ++ rest := by
  cases text with
  | nil => cases h
  | cons d text =>
      simp only [readEscape] at h
      split at h
      next hd =>
        cases h
        exact ⟨['n'], .newline, by rw [hd]; rfl⟩
      split at h
      next hd =>
        cases h
        exact ⟨['t'], .tab, by rw [hd]; rfl⟩
      split at h
      next hd =>
        cases h
        exact ⟨['r'], .carriageReturn, by rw [hd]; rfl⟩
      split at h
      next hd =>
        cases h
        exact ⟨[c], .itself hd, rfl⟩
      split at h
      next hd =>
        obtain ⟨sequence, hsequence, htext⟩ := escapes_of_readCode h
        exact ⟨'u' :: sequence, hsequence, by rw [hd, htext]; rfl⟩
      next => cases h

/-! ## Whole forms -/

theorem readBody_items {q : Char} (hq : IsQuote q) {items value : List Char}
    (h : Items q items value) (ending : List Char) :
    readBody q (items ++ ending) = value.foldr Reading.push (readBody q ending) := by
  induction h with
  | nil => rfl
  | plain hquote hbackslash _ ih =>
      rw [List.cons_append, readBody_plain hquote hbackslash, ih, List.foldr_cons]
  | escape hescape _ ih =>
      rw [List.cons_append, List.cons_append, List.append_assoc,
        readBody_escape hq.ne_backslash (readEscape_of_escapes hescape _), ih, List.foldr_cons]

theorem Reading.foldr_push_closed (value value' rest : List Char) :
    value.foldr push (.closed value' rest) = .closed (value ++ value') rest := by
  induction value with
  | nil => rfl
  | cons c value ih =>
      rw [List.foldr_cons, ih]
      rfl

theorem readBody_of_items {q : Char} (hq : IsQuote q) {text value : List Char}
    (h : Items q text value) (rest : List Char) :
    readBody q (text ++ q :: rest) = .closed value rest := by
  rw [readBody_items hq h, readBody_close, Reading.foldr_push_closed, List.append_nil]

theorem items_of_readBody {q : Char} {text value rest : List Char}
    (h : readBody q text = .closed value rest) :
    ∃ items, Items q items value ∧ text = items ++ q :: rest := by
  fun_induction readBody q text generalizing value with
  | case1 => cases h
  | case2 text =>
      cases h
      exact ⟨[], .nil, rfl⟩
  | case3 => cases h
  | case4 text d rest' hescape hshorter hquote ih =>
      obtain ⟨value', hbody, rfl⟩ := Reading.push_eq_closed h
      obtain ⟨items, hitems, rfl⟩ := ih hbody
      obtain ⟨sequence, hsequence, rfl⟩ := escapes_of_readEscape hescape
      exact ⟨'\\' :: sequence ++ items, .escape hsequence hitems, by simp⟩
  | case5 => cases h
  | case6 c text hquote hbackslash ih =>
      obtain ⟨value', hbody, rfl⟩ := Reading.push_eq_closed h
      obtain ⟨items, hitems, rfl⟩ := ih hbody
      exact ⟨c :: items, .plain hquote hbackslash hitems, rfl⟩

end Quoted
end Text
end FilterLang
