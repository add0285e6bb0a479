import FilterLang.Json.Writer
import FilterLang.Proofs.Digits
import Mathlib.Data.List.Basic

/-!
# JSON strings read back

Each written character is read back as one character, whatever stands behind it:
itself, a short escape or four hexadecimal digits.  So a written string is read
to its closing quote and not further, and it has the value that was written.
-/

namespace FilterLang
namespace Json

-- Powers of natural numbers are `Nat.pow`, whatever else is in scope.
attribute [local instance (high)] instPowNat

variable {μ : Type}

theorem readString_quote (rest : List Char) :
    readString (μ := μ) ('"' :: rest) = .ok ([], rest) := by
  rw [readString, if_pos rfl]

theorem readString_plain {c : Char} (hquote : c ≠ '"') (hslash : c ≠ '\\')
    (hcontrol : ¬ c.toNat < 0x20) (text : List Char) :
    readString (μ := μ) (c :: text) =
      (readString text).map fun (value, rest) => (c :: value, rest) := by
  rw [readString, if_neg hquote, if_neg hslash, if_neg hcontrol]

theorem readString_escape {text rest : List Char} {d : Char}
    (h : readEscape (μ := μ) text = .ok (d, rest)) :
    readString (μ := μ) ('\\' :: text) =
      (readString rest).map fun (value, rest) => (d :: value, rest) := by
  rw [readString, if_neg (by decide), if_pos rfl]
  split
  next h' =>
    rw [h] at h'
    contradiction
  next d' rest' h' =>
    rw [h] at h'
    cases h'
    rfl

/-- The four digits that a control is written with are those of its code. -/
theorem exists_fourHex {c : Char} (hc : c.toNat < 0x20) :
    ∃ a b d e, Text.padLeft 4 (Nat.toDigits 16 c.toNat) = [a, b, d, e] ∧
      Text.hexNumber? [a, b, d, e] = some c.toNat := by
  have hdigits : (Nat.toDigits 16 c.toNat).length ≤ 4 := by
    rw [Nat.length_toDigits_le_iff (by decide) (by decide)]
    omega
  have hlength : (Text.padLeft 4 (Nat.toDigits 16 c.toNat)).length = 4 := by
    rw [Text.length_padLeft]
    omega
  have hvalue : Text.hexNumber? (Text.padLeft 4 (Nat.toDigits 16 c.toNat)) = some c.toNat := by
    rw [Text.hexNumber?_padLeft, Text.hexNumber?_toDigits]
  obtain ⟨a, b, d, e, hpadded⟩ := List.length_eq_four.1 hlength
  rw [hpadded] at hvalue
  exact ⟨a, b, d, e, hpadded, hvalue⟩

theorem readUnicode_code {c : Char} (hc : c.toNat < 0x20) (rest : List Char) :
    readUnicode (μ := μ) (Text.padLeft 4 (Nat.toDigits 16 c.toNat) ++ rest) = .ok (c, rest) := by
  obtain ⟨a, b, d, e, hpadded, hvalue⟩ := exists_fourHex hc
  have hfour : readFourHex (μ := μ) ([a, b, d, e] ++ rest) = .ok (c.toNat, rest) := by
    simp only [readFourHex, List.cons_append, List.nil_append, hvalue]
  have htrailing : isTrailingSurrogate c.toNat = false := by
    simp only [isTrailingSurrogate, Bool.and_eq_false_iff, decide_eq_false_iff_not]
    omega
  have hleading : isLeadingSurrogate c.toNat = false := by
    simp only [isLeadingSurrogate, Bool.and_eq_false_iff, decide_eq_false_iff_not]
    omega
  rw [hpadded, readUnicode, hfour]
  simp only [bind, Except.bind, htrailing, hleading, Char.ofNat_toNat]
  rfl

theorem readString_writeChar (c : Char) (text : List Char) :
    readString (μ := μ) (writeChar c ++ text) =
      (readString text).map fun (value, rest) => (c :: value, rest) := by
  by_cases hquote : c = '"'
  · subst hquote
    exact readString_escape rfl
  by_cases hslash : c = '\\'
  · subst hslash
    exact readString_escape rfl
  by_cases hb : c = '\x08'
  · subst hb
    exact readString_escape rfl
  by_cases hf : c = '\x0c'
  · subst hf
    exact readString_escape rfl
  by_cases hn : c = '\n'
  · subst hn
    exact readString_escape rfl
  by_cases hr : c = '\r'
  · subst hr
    exact readString_escape rfl
  by_cases ht : c = '\t'
  · subst ht
    exact readString_escape rfl
  -- All characters with a short escape are done.
  have hself : ¬ (c = '"' ∨ c = '\\') := by simp [hquote, hslash]
  rw [writeChar, if_neg hself, if_neg hb, if_neg hf, if_neg hn, if_neg hr, if_neg ht]
  by_cases hcontrol : c.toNat < 0x20
  · rw [if_pos hcontrol]
    exact readString_escape (readUnicode_code hcontrol text)
  · rw [if_neg hcontrol]
    exact readString_plain hquote hslash hcontrol text

/-- A written string is read back from the character after its opening quote. -/
theorem readString_written (value rest : List Char) :
    readString (μ := μ) (value.flatMap writeChar ++ '"' :: rest) = .ok (value, rest) := by
  induction value with
  | nil => exact readString_quote rest
  | cons c value ih =>
      rw [List.flatMap_cons, List.append_assoc, readString_writeChar, ih]
      rfl

end Json
end FilterLang
