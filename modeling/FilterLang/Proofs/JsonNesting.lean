import FilterLang.Json.Writer
import FilterLang.Proofs.NumberTexts

/-!
# How deep the brackets of a written value nest

The depth of a value counts arrays and objects from the outermost one to the
innermost.  A scan of any text counts its open brackets and remembers the most
that it has seen, passing over what is in strings.  On the compact form of a
value the two agree: brackets in strings do not count, since an escape is passed
over together with the character that it protects.
-/

namespace FilterLang
namespace Json

-- What holds of each character of a list is decided along the list.
attribute [local instance (high)] List.decidableBAll

/-! ## Values -/

@[elab_as_elim, induction_eliminator]
theorem Value.valueInduction {motive : Value → Prop} (null : motive .null)
    (bool : ∀ value, motive (.bool value)) (number : ∀ value, motive (.number value))
    (string : ∀ value, motive (.string value))
    (array : ∀ items, (∀ item ∈ items, motive item) → motive (.array items))
    (object : ∀ members, (∀ member ∈ members, motive member.2) → motive (.object members))
    (v : Value) : motive v := by
  refine @Value.rec motive (fun items => ∀ item ∈ items, motive item)
    (fun members => ∀ member ∈ members, motive member.2) (fun member => motive member.2)
    null bool number string array object ?_ ?_ ?_ ?_ ?_ v
  · simp
  · intro item items hitem hitems
    rw [List.forall_mem_cons]
    exact ⟨hitem, hitems⟩
  · simp
  · intro member members hmember hmembers
    rw [List.forall_mem_cons]
    exact ⟨hmember, hmembers⟩
  · intro name value hvalue
    exact hvalue

mutual

def Value.depth : Value → Nat
  | .array items => itemsDepth items + 1
  | .object members => membersDepth members + 1
  | .null | .bool _ | .number _ | .string _ => 0

def itemsDepth : List Value → Nat
  | [] => 0
  | item :: items => max item.depth (itemsDepth items)

def membersDepth : List (String × Value) → Nat
  | [] => 0
  | (_, value) :: members => max value.depth (membersDepth members)

end

/-- A member as it is written, with its value. -/
def writeMember {β : Type} (write : β → List Char) (member : String × β) : List Char :=
  writeString member.1.toList ++ ':' :: write member.2

theorem itemTexts_eq_map (items : List Value) : itemTexts items = items.map Value.text := by
  induction items with
  | nil => rfl
  | cons item items ih => rw [itemTexts, List.map_cons, ih]

theorem memberTexts_eq_map (members : List (String × Value)) :
    memberTexts members = members.map (writeMember Value.text) := by
  induction members with
  | nil => rfl
  | cons member members ih => rw [memberTexts, List.map_cons, ih, writeMember]

theorem joinWith_cons (separator text : List Char) (texts : List (List Char)) :
    joinWith separator (text :: texts) = text ++ texts.flatMap (separator ++ ·) := by
  induction texts generalizing text with
  | nil => rw [joinWith, List.flatMap_nil, List.append_nil]
  | cons next texts ih =>
      have hjoin : joinWith separator (text :: next :: texts) =
          text ++ separator ++ joinWith separator (next :: texts) := rfl
      rw [hjoin, ih, List.flatMap_cons]
      simp only [List.append_assoc]

/-! ## Scanning for brackets -/

/-- A scan of a text for brackets: whether it stands in a string, whether the
next character there is protected, and how many brackets are and have been open. -/
structure Brackets where
  quoted : Bool := false
  escaped : Bool := false
  depth : Nat := 0
  deepest : Nat := 0

namespace Brackets

def step (s : Brackets) (c : Char) : Brackets :=
  if s.quoted then
    if s.escaped then { s with escaped := false }
    else if c = '\\' then { s with escaped := true }
    else if c = '"' then { s with quoted := false }
    else s
  else if c = '"' then { s with quoted := true }
  else if c = '[' ∨ c = '{' then
    { s with depth := s.depth + 1, deepest := max s.deepest (s.depth + 1) }
  else if c = ']' ∨ c = '}' then { s with depth := s.depth - 1 }
  else s

/-- The scan goes on outside strings. -/
def Outside (s : Brackets) : Prop :=
  s.quoted = false ∧ s.escaped = false ∧ s.depth ≤ s.deepest

/-- The same scan after brackets that nest `n` deep have opened and closed. -/
def dip (s : Brackets) (n : Nat) : Brackets :=
  { s with deepest := max s.deepest (s.depth + n) }

theorem dip_zero {s : Brackets} (hs : s.Outside) : s.dip 0 = s := by
  have hmax : max s.deepest s.depth = s.deepest := Nat.max_eq_left hs.2.2
  rw [dip, Nat.add_zero, hmax]

theorem dip_dip (s : Brackets) (m n : Nat) : (s.dip m).dip n = s.dip (max m n) := by
  simp only [dip, mk.injEq, true_and]
  omega

theorem Outside.dip {s : Brackets} (hs : s.Outside) (n : Nat) : (s.dip n).Outside :=
  ⟨hs.1, hs.2.1, Nat.le_trans hs.2.2 (Nat.le_max_left ..)⟩

end Brackets

/-- How deep brackets nest in a text, those in strings aside. -/
def nesting (text : List Char) : Nat :=
  (text.foldl Brackets.step {}).deepest

namespace Brackets

def IsPlain (c : Char) : Prop :=
  c ∉ ['"', '[', '{', ']', '}']

instance (c : Char) : Decidable (IsPlain c) := by
  unfold IsPlain
  infer_instance

theorem foldl_step_plain {text : List Char} (htext : ∀ c ∈ text, IsPlain c) {s : Brackets}
    (hs : s.Outside) : text.foldl step s = s := by
  induction text with
  | nil => rfl
  | cons c text ih =>
      rw [List.forall_mem_cons] at htext
      have hc : step s c = s := by
        have hplain := htext.1
        simp only [IsPlain, List.mem_cons, List.not_mem_nil, or_false, not_or] at hplain
        simp [step, hs.1, hplain]
      rw [List.foldl_cons, hc]
      exact ih htext.2

theorem foldl_step_quoted {text : List Char} (htext : ∀ c ∈ text, c ≠ '\\' ∧ c ≠ '"')
    {s : Brackets} (hs : s.Outside) :
    text.foldl step { s with quoted := true } = { s with quoted := true } := by
  induction text with
  | nil => rfl
  | cons c text ih =>
      rw [List.forall_mem_cons] at htext
      have hc : step { s with quoted := true } c = { s with quoted := true } := by
        simp [step, hs.2.1, htext.1]
      rw [List.foldl_cons, hc]
      exact ih htext.2

theorem foldl_step_escape {c : Char} {text : List Char}
    (htext : ∀ c ∈ text, c ≠ '\\' ∧ c ≠ '"') {s : Brackets} (hs : s.Outside) :
    ('\\' :: c :: text).foldl step { s with quoted := true } = { s with quoted := true } := by
  have hescape : step (step { s with quoted := true } '\\') c = { s with quoted := true } := by
    rcases s with ⟨quoted, escaped, depth, deepest⟩
    obtain ⟨rfl, rfl, -⟩ := hs
    simp [step]
  rw [List.foldl_cons, List.foldl_cons, hescape]
  exact foldl_step_quoted htext hs

theorem foldl_step_writeChar (c : Char) {s : Brackets} (hs : s.Outside) :
    (writeChar c).foldl step { s with quoted := true } = { s with quoted := true } := by
  unfold writeChar
  iterate 6
    split
    · exact foldl_step_escape (by simp) hs
  split
  · apply foldl_step_escape _ hs
    intro d hd
    rcases Text.mem_padLeft hd with rfl | hd
    · decide
    · have hhex := Text.isSome_hexValue?_of_mem_toDigits hd
      constructor
      · rintro rfl
        contradiction
      · rintro rfl
        contradiction
  next hself _ _ _ _ _ _ =>
    rw [not_or] at hself
    apply foldl_step_quoted _ hs
    simpa using hself.symm

/-- A string whose body leaves a scan in it is passed over. -/
theorem foldl_step_string {body : List Char} {s : Brackets}
    (hbody : ∀ {s : Brackets}, s.Outside →
      body.foldl step { s with quoted := true } = { s with quoted := true })
    (hs : s.Outside) : ('"' :: body ++ ['"']).foldl step s = s := by
  have hopen : step s '"' = { s with quoted := true } := by
    simp [step, hs.1]
  have hclose : step { s with quoted := true } '"' = s := by
    rcases s with ⟨quoted, escaped, depth, deepest⟩
    obtain ⟨rfl, rfl, -⟩ := hs
    simp [step]
  rw [List.cons_append, List.foldl_cons, hopen, List.foldl_append, hbody hs, List.foldl_cons,
    hclose, List.foldl_nil]

theorem foldl_step_writeString (text : List Char) {s : Brackets} (hs : s.Outside) :
    (writeString text).foldl step s = s := by
  refine foldl_step_string ?_ hs
  intro s hs
  induction text with
  | nil => rfl
  | cons c text ih => rw [List.flatMap_cons, List.foldl_append, foldl_step_writeChar c hs, ih]

theorem foldl_step_bracketed {opening closing : Char} {text : List Char} {n : Nat}
    (hopening : opening = '[' ∨ opening = '{') (hclosing : closing = ']' ∨ closing = '}')
    (htext : ∀ {s : Brackets}, s.Outside → text.foldl step s = s.dip n)
    {s : Brackets} (hs : s.Outside) :
    (opening :: text ++ [closing]).foldl step s = s.dip (n + 1) := by
  have hopen : step s opening =
      { s with depth := s.depth + 1, deepest := max s.deepest (s.depth + 1) } := by
    have hquote : opening ≠ '"' := by
      rcases hopening with rfl | rfl
      · decide
      · decide
    simp [step, hs.1, hquote, hopening]
  have hinner : (step s opening).Outside := by
    rw [hopen]
    exact ⟨hs.1, hs.2.1, Nat.le_max_right ..⟩
  have hclose : ∀ inner : Brackets, inner.quoted = false →
      step inner closing = { inner with depth := inner.depth - 1 } := by
    intro inner hinner
    rcases hclosing with rfl | rfl
    · simp [step, hinner]
    · simp [step, hinner]
  rw [List.cons_append, List.foldl_cons, List.foldl_append, htext hinner, List.foldl_cons,
    List.foldl_nil, hclose _ (hinner.dip n).1, hopen]
  simp only [dip, mk.injEq, true_and, Nat.add_sub_cancel]
  omega

/-- Texts with commas between them nest as deep as the deepest of them. -/
theorem foldl_step_joinWith {β : Type} {write : β → List Char} {depthOf : β → Nat}
    {items : List β}
    (h : ∀ b ∈ items, ∀ {s : Brackets}, s.Outside → (write b).foldl step s = s.dip (depthOf b))
    {s : Brackets} (hs : s.Outside) :
    (joinWith [','] (items.map write)).foldl step s =
      s.dip ((items.map depthOf).foldr max 0) := by
  have hcomma : ∀ {s : Brackets}, s.Outside → step s ',' = s := by
    intro s hs
    simp [step, hs.1]
  have hrest : ∀ items : List β,
      (∀ b ∈ items, ∀ {s : Brackets}, s.Outside → (write b).foldl step s = s.dip (depthOf b)) →
      ∀ {s : Brackets}, s.Outside →
        ((items.map write).flatMap ([','] ++ ·)).foldl step s =
          s.dip ((items.map depthOf).foldr max 0) := by
    intro items h s hs
    induction items generalizing s with
    | nil => rw [List.map_nil, List.map_nil, List.flatMap_nil, List.foldr_nil, dip_zero hs]; rfl
    | cons b items ih =>
        rw [List.forall_mem_cons] at h
        rw [List.map_cons, List.flatMap_cons, List.foldl_append, List.foldl_append,
          List.foldl_cons, List.foldl_nil, hcomma hs, h.1 hs, ih h.2 (hs.dip _), dip_dip]
        rfl
  cases items with
  | nil => rw [List.map_nil, List.map_nil, List.foldr_nil, dip_zero hs]; rfl
  | cons b items =>
      rw [List.forall_mem_cons] at h
      rw [List.map_cons, joinWith_cons, List.foldl_append, h.1 hs, hrest items h.2 (hs.dip _),
        dip_dip]
      rfl

end Brackets

theorem itemsDepth_eq (items : List Value) :
    itemsDepth items = (items.map Value.depth).foldr max 0 := by
  induction items with
  | nil => rfl
  | cons item items ih => rw [itemsDepth, ih]; rfl

theorem membersDepth_eq (members : List (String × Value)) :
    membersDepth members = (members.map fun member => member.2.depth).foldr max 0 := by
  induction members with
  | nil => rfl
  | cons member members ih => rw [membersDepth, ih]; rfl

theorem Number.isPlain_text {n : Number} : ∀ c ∈ n.text, Brackets.IsPlain c := by
  have hnumeric : ∀ c, IsNumeric c → Brackets.IsPlain c := by
    rintro c (hdigit | hmark)
    · intro hmem
      simp only [List.mem_cons, List.not_mem_nil, or_false] at hmem
      rcases hmem with rfl | rfl | rfl | rfl | rfl <;> contradiction
    · simp only [List.mem_cons, List.not_mem_nil, or_false] at hmark
      rcases hmark with rfl | rfl | rfl | rfl <;> decide
  have hsign : ∀ negative : Bool, ∀ c ∈ (if negative then ['-'] else []), Brackets.IsPlain c := by
    intro negative
    cases negative <;> decide
  have hnull : ∀ c ∈ "null".toList, Brackets.IsPlain c := by decide
  intro c hc
  cases n with
  | integer value =>
      rcases List.mem_append.1 hc with hc | hc
      · exact hsign (value < 0) c (by simpa using hc)
      · exact hnumeric c (Or.inl (Nat.isDigit_of_mem_toDigits (by decide) (by decide) hc))
  | float value =>
      cases value with
      | nan => exact hnull c hc
      | infinite negative => exact hnull c hc
      | finite negative magnitude =>
          rcases List.mem_append.1 hc with hc | hc
          · exact hsign negative c hc
          · exact hnumeric c (Magnitude.isNumeric_of_mem_text hc)

/-- A scan over the compact form of a value dips as deep as the value nests. -/
theorem foldl_step_text (v : Value) {s : Brackets} (hs : s.Outside) :
    v.text.foldl Brackets.step s = s.dip v.depth := by
  induction v generalizing s with
  | null =>
      rw [Value.depth, Brackets.dip_zero hs]
      exact Brackets.foldl_step_plain (by decide) hs
  | bool value =>
      rw [Value.depth, Brackets.dip_zero hs]
      exact Brackets.foldl_step_plain (by cases value <;> decide) hs
  | number value =>
      rw [Value.depth, Brackets.dip_zero hs]
      exact Brackets.foldl_step_plain Number.isPlain_text hs
  | string value =>
      rw [Value.depth, Brackets.dip_zero hs]
      exact Brackets.foldl_step_writeString value.toList hs
  | array items ih =>
      rw [Value.text, itemTexts_eq_map, Value.depth, itemsDepth_eq]
      apply Brackets.foldl_step_bracketed (Or.inl rfl) (Or.inl rfl) _ hs
      intro s hs
      exact Brackets.foldl_step_joinWith (fun item hitem => ih item hitem) hs
  | object members ih =>
      rw [Value.text, memberTexts_eq_map, Value.depth, membersDepth_eq]
      apply Brackets.foldl_step_bracketed (Or.inr rfl) (Or.inr rfl) _ hs
      intro s hs
      apply Brackets.foldl_step_joinWith _ hs
      intro member hmember s hs
      have hcolon : Brackets.step s ':' = s := by
        simp [Brackets.step, hs.1]
      rw [writeMember, List.foldl_append, Brackets.foldl_step_writeString _ hs, List.foldl_cons,
        hcolon, ih member hmember hs]

/-- The brackets of the compact form of a value nest as deep as the value. -/
theorem nesting_text (v : Value) : nesting v.text = v.depth := by
  have houtside : Brackets.Outside {} := ⟨rfl, rfl, Nat.le_refl 0⟩
  rw [nesting, foldl_step_text v houtside]
  simp [Brackets.dip]

end Json
end FilterLang
