import FilterLang.Json.Reader
import FilterLang.Proofs.JsonNumbers
import FilterLang.Proofs.JsonStrings

/-!
# Literals of JSON

A literal is null, a truth value, a number or a string, written in any way that the
format allows.  The reader of values takes all of a literal or fails on it, and
which of the two does not depend on what stands behind, as long as that cannot
prolong a number.

A string is written as items: plain characters and escapes.  Items stand for one
character each, save that two escapes may be the two halves of one; so what an item
is read as is settled together with the items behind it.

Which fault it is, and where, does not matter here, so results are compared as
options.
-/

namespace FilterLang
namespace Json

theorem toOption_map {ε α β : Type} (f : α → β) (x : Except ε α) :
    (x.map f).toOption = x.toOption.map f := by
  cases x <;> rfl

theorem toOption_bind {ε α β : Type} (x : Except ε α) (f : α → Except ε β) :
    (x >>= f).toOption = x.toOption.bind fun a => (f a).toOption := by
  cases x <;> rfl

theorem toOption_mapError {ε δ α : Type} (f : ε → δ) (x : Except ε α) :
    (x.mapError f).toOption = x.toOption := by
  cases x <;> rfl

theorem toOption_eq_some {ε α : Type} {x : Except ε α} {a : α} :
    x.toOption = some a ↔ x = .ok a := by
  cases x <;> simp [Except.toOption]

variable {μ : Type}

/-! ## Strings -/

/-- A character or an escape in a string, as it is written. -/
inductive IsStringItem : List Char → Prop
  | plain {c : Char} (hquote : c ≠ '"') (hslash : c ≠ '\\') (hcontrol : ¬ c.toNat < 0x20) :
      IsStringItem [c]
  | short {c : Char} (hc : c ∈ ['"', '\\', '/', 'b', 'f', 'n', 'r', 't']) : IsStringItem ['\\', c]
  | unicode {a b c d : Char} {code : Nat} (hcode : Text.hexNumber? [a, b, c, d] = some code) :
      IsStringItem ['\\', 'u', a, b, c, d]

/-- A string as it is written between its quotes, item by item. -/
structure StringText where
  items : List (List Char)
  valid : ∀ item ∈ items, IsStringItem item

/-- What follows the opening quote. -/
def StringText.body (s : StringText) : List Char :=
  s.items.flatten ++ ['"']

/-- The characters that the string stands for, if its escapes stand for any. -/
def StringText.value? (μ : Type) (s : StringText) : Option String :=
  (readString (μ := μ) s.body).toOption.map fun read => String.ofList read.1

/-- Reads on in a string behind a character of it. -/
def readBehind (μ : Type) (c : Char) (text : List Char) : Option (List Char × List Char) :=
  (readString (μ := μ) text).toOption.map fun read => (c :: read.1, read.2)

theorem readString_backslash (text : List Char) :
    (readString (μ := μ) ('\\' :: text)).toOption =
      (readEscape (μ := μ) text).toOption.bind fun read => readBehind μ read.1 read.2 := by
  cases h : readEscape (μ := μ) text with
  | ok read =>
      rw [readString_escape h, toOption_map]
      rfl
  | error f =>
      rw [readString, if_neg (by decide), if_pos rfl]
      split
      next => rfl
      next h' =>
        rw [h] at h'
        contradiction

theorem exists_readEscape_short {c : Char} (hc : c ∈ ['"', '\\', '/', 'b', 'f', 'n', 'r', 't']) :
    ∃ d, ∀ rest, readEscape (μ := μ) (c :: rest) = .ok (d, rest) := by
  simp only [List.mem_cons, List.not_mem_nil, or_false] at hc
  rcases hc with rfl | rfl | rfl | rfl | rfl | rfl | rfl | rfl
  all_goals exact ⟨_, fun rest => rfl⟩

theorem readFourHex_of_hexNumber? {a b c d : Char} {code : Nat}
    (hcode : Text.hexNumber? [a, b, c, d] = some code) (rest : List Char) :
    readFourHex (μ := μ) (a :: b :: c :: d :: rest) = .ok (code, rest) := by
  simp only [readFourHex, hcode]

/-- A string that begins with these items is read alike whatever stands behind it. -/
def SettlesString (μ : Type) (items : List (List Char)) : Prop :=
  ∃ value? : Option (List Char), ∀ rest,
    (readString (μ := μ) (items.flatten ++ '"' :: rest)).toOption =
      value?.map fun value => (value, rest)

/-- The same behind the first half of a pair of escapes. -/
def SettlesHalf (μ : Type) (leading : Nat) (items : List (List Char)) : Prop :=
  ∃ value? : Option (List Char), ∀ rest,
    ((readTrailing (μ := μ) leading (items.flatten ++ '"' :: rest)).toOption.bind fun read =>
      readBehind μ read.1 read.2) = value?.map fun value => (value, rest)

theorem SettlesString.behind {items : List (List Char)} (h : SettlesString μ items) (c : Char) :
    ∃ value? : Option (List Char), ∀ rest,
      readBehind μ c (items.flatten ++ '"' :: rest) = value?.map fun value => (value, rest) := by
  obtain ⟨value?, hvalue⟩ := h
  refine ⟨value?.map (c :: ·), ?_⟩
  intro rest
  rw [readBehind, hvalue rest]
  cases value? <;> rfl

theorem settlesString_nil : SettlesString μ [] := by
  refine ⟨some [], ?_⟩
  intro rest
  rw [List.flatten_nil, List.nil_append, readString_quote]
  rfl

theorem settlesHalf_nil (leading : Nat) : SettlesHalf μ leading [] :=
  ⟨none, fun _ => rfl⟩

theorem settlesHalf_cons {item : List Char} {items : List (List Char)} (hitem : IsStringItem item)
    (h : SettlesString μ items) (leading : Nat) : SettlesHalf μ leading (item :: items) := by
  cases hitem with
  | @plain c _ hslash _ =>
      refine ⟨none, ?_⟩
      intro rest
      rw [List.flatten_cons, List.append_assoc, List.singleton_append, readTrailing]
      · rfl
      all_goals simp [hslash]
  | @short c hc =>
      have hu : c ≠ 'u' := by
        rintro rfl
        simp at hc
      refine ⟨none, ?_⟩
      intro rest
      rw [List.flatten_cons, List.append_assoc, List.cons_append, List.singleton_append,
        readTrailing]
      · rfl
      all_goals simp [hu]
  | @unicode a b c d code hcode =>
      have hread : ∀ rest, readTrailing (μ := μ) leading
          ((['\\', 'u', a, b, c, d] :: items).flatten ++ '"' :: rest) =
            if isTrailingSurrogate code then
              .ok (ofSurrogates leading code, items.flatten ++ '"' :: rest)
            else fail .loneSurrogate (items.flatten ++ '"' :: rest) 0 := by
        intro rest
        rw [List.flatten_cons, List.append_assoc]
        simp only [List.cons_append, List.nil_append, readTrailing,
          readFourHex_of_hexNumber? hcode]
        rfl
      by_cases htrailing : isTrailingSurrogate code = true
      · obtain ⟨value?, hvalue⟩ := h.behind (ofSurrogates leading code)
        refine ⟨value?, ?_⟩
        intro rest
        rw [hread, if_pos htrailing, ← hvalue rest, Except.toOption, Option.bind_some]
      · refine ⟨none, ?_⟩
        intro rest
        rw [hread, if_neg htrailing]
        rfl

theorem settlesString_cons {item : List Char} {items : List (List Char)}
    (hitem : IsStringItem item) (h : SettlesString μ items)
    (hhalf : ∀ leading, SettlesHalf μ leading items) : SettlesString μ (item :: items) := by
  cases hitem with
  | @plain c hquote hslash hcontrol =>
      obtain ⟨value?, hvalue⟩ := h.behind c
      refine ⟨value?, ?_⟩
      intro rest
      rw [List.flatten_cons, List.append_assoc, List.singleton_append,
        readString_plain hquote hslash hcontrol, toOption_map]
      exact hvalue rest
  | @short c hc =>
      obtain ⟨d, hd⟩ := exists_readEscape_short (μ := μ) hc
      obtain ⟨value?, hvalue⟩ := h.behind d
      refine ⟨value?, ?_⟩
      intro rest
      rw [List.flatten_cons, List.append_assoc, List.cons_append, List.singleton_append,
        readString_backslash, hd]
      exact hvalue rest
  | @unicode a b c d code hcode =>
      have hread : ∀ rest, (readString (μ := μ)
          ((['\\', 'u', a, b, c, d] :: items).flatten ++ '"' :: rest)).toOption =
            (if isTrailingSurrogate code then
                fail (μ := μ) .loneSurrogate (items.flatten ++ '"' :: rest) 0
              else if isLeadingSurrogate code then
                readTrailing code (items.flatten ++ '"' :: rest)
              else .ok (Char.ofNat code, items.flatten ++ '"' :: rest)).toOption.bind
                fun read => readBehind μ read.1 read.2 := by
        intro rest
        rw [List.flatten_cons, List.append_assoc]
        simp only [List.cons_append, List.nil_append, readString_backslash]
        have hescape : readEscape (μ := μ)
            ('u' :: a :: b :: c :: d :: (items.flatten ++ '"' :: rest)) =
              readUnicode (a :: b :: c :: d :: (items.flatten ++ '"' :: rest)) := rfl
        rw [hescape, readUnicode, readFourHex_of_hexNumber? hcode]
        rfl
      by_cases htrailing : isTrailingSurrogate code = true
      · refine ⟨none, ?_⟩
        intro rest
        rw [hread, if_pos htrailing]
        rfl
      · by_cases hleading : isLeadingSurrogate code = true
        · obtain ⟨value?, hvalue⟩ := hhalf code
          refine ⟨value?, ?_⟩
          intro rest
          rw [hread, if_neg htrailing, if_pos hleading]
          exact hvalue rest
        · obtain ⟨value?, hvalue⟩ := h.behind (Char.ofNat code)
          refine ⟨value?, ?_⟩
          intro rest
          rw [hread, if_neg htrailing, if_neg hleading]
          exact hvalue rest

theorem settlesString {items : List (List Char)} (h : ∀ item ∈ items, IsStringItem item) :
    SettlesString μ items ∧ ∀ leading, SettlesHalf μ leading items := by
  induction items with
  | nil => exact ⟨settlesString_nil, settlesHalf_nil⟩
  | cons item items ih =>
      rw [List.forall_mem_cons] at h
      obtain ⟨hstring, hhalf⟩ := ih h.2
      exact ⟨settlesString_cons h.1 hstring hhalf, settlesHalf_cons h.1 hstring⟩

/-- A string is read from its opening quote up to its closing one. -/
theorem StringText.readString_body (s : StringText) (rest : List Char) :
    (readString (μ := μ) (s.body ++ rest)).toOption =
      (s.value? μ).map fun value => (value.toList, rest) := by
  obtain ⟨value?, hvalue⟩ := (settlesString (μ := μ) s.valid).1
  have halone : (readString (μ := μ) s.body).toOption = value?.map fun value => (value, []) :=
    hvalue []
  rw [StringText.value?, halone, body, List.append_assoc, List.singleton_append, hvalue rest]
  cases value? with
  | none => rfl
  | some value => simp

/-! ## Literals -/

inductive Literal where
  | null
  | bool (value : Bool)
  | number (negative : Bool) (numeral : List Char) (valid : IsNumeral numeral)
  | string (s : StringText)

def Literal.text : Literal → List Char
  | .null => "null".toList
  | .bool value => (if value then "true" else "false").toList
  | .number negative numeral _ => (if negative then ['-'] else []) ++ numeral
  | .string s => '"' :: s.body

/-- What the literal reads as on its own. -/
def Literal.value? (μ : Type) (l : Literal) : Option Value :=
  (runValue (μ := μ) none l.text).toOption.map fun read => read.1

theorem skipSpace_of_not_isSpace {c : Char} (hc : isSpace c = false) (text : List Char) :
    skipSpace (c :: text) = c :: text :=
  List.dropWhile_cons_of_neg (by simp [hc])

theorem IsNumeral.exists_cons {text : List Char} (h : IsNumeral text) :
    ∃ c tail, text = c :: tail ∧ c.isDigit = true := by
  obtain ⟨whole, fraction, exponent, rfl, hwhole, -, -⟩ := h
  rcases hwhole with rfl | hleading
  · exact ⟨'0', _, rfl, rfl⟩
  · cases whole with
    | nil => exact absurd rfl hleading.ne_nil
    | cons c whole => exact ⟨c, _, rfl, hleading.isDigit c (List.mem_cons_self ..)⟩

theorem isSpace_of_isDigit {c : Char} (hc : c.isDigit = true) : isSpace c = false := by
  simp only [isSpace, Bool.or_eq_false_iff, beq_eq_false_iff_ne]
  refine ⟨⟨⟨?_, ?_⟩, ?_⟩, ?_⟩ <;>
    · rintro rfl
      contradiction

theorem Literal.exists_text_eq_cons (l : Literal) :
    ∃ c tail, l.text = c :: tail ∧ isSpace c = false ∧ c ∉ ['[', '{', ']'] := by
  cases l with
  | null => exact ⟨'n', _, rfl, rfl, by decide⟩
  | bool value =>
      cases value with
      | false => exact ⟨'f', _, rfl, rfl, by decide⟩
      | true => exact ⟨'t', _, rfl, rfl, by decide⟩
  | number negative numeral valid =>
      obtain ⟨c, tail, rfl, hc⟩ := valid.exists_cons
      cases negative with
      | false =>
          refine ⟨c, tail, rfl, isSpace_of_isDigit hc, ?_⟩
          simp only [List.mem_cons, List.not_mem_nil, or_false]
          rintro (rfl | rfl | rfl) <;> contradiction
      | true => exact ⟨'-', _, rfl, rfl, by decide⟩
  | string s => exact ⟨'"', _, rfl, rfl, by decide⟩

theorem runValue_numeral (inner? : Option (Reader μ Value)) {text : List Char}
    (htext : IsNumeral text) (rest : List Char) :
    runValue inner? (text ++ rest) =
      (readNumber false (text ++ rest)).map fun (n, rest) => (.number n, rest) := by
  obtain ⟨c, tail, rfl, hc⟩ := htext.exists_cons
  have hne : ∀ d, d.isDigit = false → c ≠ d := by
    rintro d hd rfl
    rw [hc] at hd
    contradiction
  rw [List.cons_append, runValue, skipSpace_of_not_isSpace (isSpace_of_isDigit hc)]
  dsimp only
  rw [if_neg (hne _ rfl), if_neg (hne _ rfl), if_neg (hne _ rfl), if_neg (hne _ rfl), if_pos hc]

theorem runValue_negative (inner? : Option (Reader μ Value)) (text : List Char) :
    runValue inner? ('-' :: text) =
      (readNumber true text).map fun (n, rest) => (.number n, rest) := by
  rfl

theorem runValue_quote (inner? : Option (Reader μ Value)) (text : List Char) :
    runValue inner? ('"' :: text) =
      (readString text).map fun (s, rest) => (.string (String.ofList s), rest) := by
  rfl

/-- A literal is read to its end or not at all, and alike wherever it stands. -/
theorem Literal.exists_runValue (l : Literal) :
    ∃ value? : Option Value, ∀ (inner? : Option (Reader μ Value)) rest, EndsNumber rest →
      (runValue inner? (l.text ++ rest)).toOption = value?.map fun value => (value, rest) := by
  cases l with
  | null => exact ⟨some .null, fun inner? rest _ => rfl⟩
  | bool value =>
      refine ⟨some (.bool value), ?_⟩
      intro inner? rest _
      cases value <;> rfl
  | number negative numeral valid =>
      obtain ⟨n?, hn⟩ := settles_readNumber (μ := μ) negative valid
      refine ⟨n?.map .number, ?_⟩
      intro inner? rest hrest
      cases negative with
      | false =>
          have htext : (Literal.number false numeral valid).text = numeral := rfl
          rw [htext, runValue_numeral inner? valid, toOption_map, hn rest hrest]
          cases n? <;> rfl
      | true =>
          have htext : (Literal.number true numeral valid).text = '-' :: numeral := rfl
          rw [htext, List.cons_append, runValue_negative, toOption_map, hn rest hrest]
          cases n? <;> rfl
  | string s =>
      refine ⟨(s.value? μ).map .string, ?_⟩
      intro inner? rest _
      rw [text, List.cons_append, runValue_quote, toOption_map, s.readString_body]
      cases s.value? μ with
      | none => rfl
      | some value => simp

theorem Literal.runValue_text (l : Literal) (inner? : Option (Reader μ Value))
    {rest : List Char} (hrest : EndsNumber rest) :
    (runValue inner? (l.text ++ rest)).toOption =
      (l.value? μ).map fun value => (value, rest) := by
  obtain ⟨value?, hvalue⟩ := l.exists_runValue (μ := μ)
  have halone := hvalue none [] (by simp [EndsNumber])
  rw [List.append_nil] at halone
  rw [hvalue inner? rest hrest, Literal.value?, halone]
  cases value? <;> rfl

theorem Literal.value?_string (s : StringText) :
    (Literal.string s).value? μ = (s.value? μ).map .string := by
  have hread := s.readString_body (μ := μ) []
  rw [List.append_nil] at hread
  rw [Literal.value?, text, runValue_quote, toOption_map, hread]
  cases s.value? μ with
  | none => rfl
  | some value => simp

end Json
end FilterLang
