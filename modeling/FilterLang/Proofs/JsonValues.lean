import FilterLang.Proofs.JsonDocuments

/-!
# JSON values read back

A value that is written is a document: without any space in the compact form, and
with each element and member on a line of its own in the spread form.  So reading
either form gives the value again, except that each number is what its own text
reads as.  It fails exactly if some number does not read back at all, or if the
brackets nest deeper than the reader may open them.
-/

namespace FilterLang
namespace Json

variable {μ : Type}

/-! ## What is read of a value -/

/-- What the text of a number reads as, if it reads at all. -/
def Number.reread? (μ : Type) (n : Number) : Option Value :=
  ((runValue (μ := μ) none n.text).toOption).map fun (value, _) => value

mutual

/-- The value with every number replaced by what its text reads as; none if the
text of some number does not read. -/
def Value.reread? (μ : Type) : Value → Option Value
  | .number n => n.reread? μ
  | .array items => (rereadItems? μ items).map .array
  | .object members => (rereadMembers? μ members).map .object
  | .null => some .null
  | .bool value => some (.bool value)
  | .string value => some (.string value)

def rereadItems? (μ : Type) : List Value → Option (List Value)
  | [] => some []
  | item :: items => do return (← item.reread? μ) :: (← rereadItems? μ items)

def rereadMembers? (μ : Type) : List (String × Value) → Option (List (String × Value))
  | [] => some []
  | (name, value) :: members => do
      return (name, ← value.reread? μ) :: (← rereadMembers? μ members)

end

/-- What a reader with so many levels left gets from the text of a value. -/
def Value.within? (μ : Type) (levels : Nat) (v : Value) : Option Value :=
  if v.depth ≤ levels then v.reread? μ else none

/-! ## Values as documents -/

theorem isStringItem_writeChar (c : Char) : IsStringItem (writeChar c) := by
  unfold writeChar
  split
  next hself =>
    apply IsStringItem.short
    rcases hself with rfl | rfl
    · simp
    · simp
  next hself =>
    iterate 5
      split
      · exact IsStringItem.short (by simp)
    split
    next hcontrol =>
      obtain ⟨a, b, d, e, hpadded, hcode⟩ := exists_fourHex hcontrol
      rw [hpadded]
      exact IsStringItem.unicode hcode
    next hcontrol =>
      rw [not_or] at hself
      exact IsStringItem.plain hself.1 hself.2 hcontrol

/-- A string as it is written, with as few escapes as possible. -/
def StringText.ofString (value : String) : StringText where
  items := value.toList.map writeChar
  valid := List.forall_mem_map.2 fun c _ => isStringItem_writeChar c

theorem isNumeral_toDigits (n : Nat) : IsNumeral (Nat.toDigits 10 n) := by
  refine ⟨Nat.toDigits 10 n, [], [], by simp, ?_, Or.inl rfl, Or.inl rfl⟩
  by_cases hn : n = 0
  · rw [hn]
    exact Or.inl rfl
  · exact Or.inr (Digits.leading_toDigits hn)

def Number.literal : Number → Literal
  | .integer value => .number (value < 0) (Nat.toDigits 10 value.natAbs) (isNumeral_toDigits _)
  | .float (.finite negative magnitude) =>
      .number negative (magnitude.text numberStyle) (isNumeral_text magnitude)
  | .float _ => .null

/-- Space in front of a part that stands on a line of its own at some level; in the
compact form there are no levels. -/
def lineSpaces : (level? : Option Nat) → Spaces
  | none => .none
  | some level => ⟨newLine level, by simp [newLine, isSpace]⟩

/-- Space between a name and its value. -/
def valueSpaces : (level? : Option Nat) → Spaces
  | none => .none
  | some _ => ⟨[' '], by simp [isSpace]⟩

mutual

/-- The compact form of a value, or the spread form at some level. -/
def Value.document : (level? : Option Nat) → Value → Document
  | _, .null => .literal .null
  | _, .bool value => .literal (.bool value)
  | _, .number n => .literal n.literal
  | _, .string value => .literal (.string (.ofString value))
  | level?, .array items =>
      .array (if items.isEmpty then .none else lineSpaces level?)
        (itemDocuments (level?.map (· + 1)) items)
  | level?, .object members =>
      .object (if members.isEmpty then .none else lineSpaces level?)
        (memberDocuments (level?.map (· + 1)) members)

def itemDocuments : (level? : Option Nat) → List Value → List (Padded Document)
  | _, [] => []
  | level?, item :: items =>
      ⟨lineSpaces level?, item.document level?, .none⟩ :: itemDocuments level? items

def memberDocuments : (level? : Option Nat) → List (String × Value) →
    List (Padded StringText × Padded Document)
  | _, [] => []
  | level?, (name, value) :: members =>
      (⟨lineSpaces level?, .ofString name, .none⟩,
        ⟨valueSpaces level?, value.document level?, .none⟩) :: memberDocuments level? members

end

theorem StringText.body_ofString (value : String) :
    '"' :: (StringText.ofString value).body = writeString value.toList := by
  rw [body, ofString, writeString, List.flatMap_def, List.cons_append]

theorem Number.text_literal (n : Number) : n.literal.text = n.text := by
  cases n with
  | integer value =>
      rw [literal, Literal.text, text]
      by_cases hsign : value < 0 <;> simp [hsign]
  | float value =>
      cases value with
      | nan | infinite => rfl
      | finite negative magnitude => rfl

/-! ### The compact form -/

theorem itemTexts_compact {items : List Value}
    (h : ∀ item ∈ items, (item.document none).text = item.text) :
    Document.itemTexts (itemDocuments none items) = itemTexts items := by
  induction items with
  | nil => rfl
  | cons item items ih =>
      rw [List.forall_mem_cons] at h
      rw [itemDocuments, Document.itemTexts, itemTexts, h.1, ih h.2]
      exact congrArg (· :: _) (List.append_nil _)

theorem memberTexts_compact {members : List (String × Value)}
    (h : ∀ m ∈ members, (m.2.document none).text = m.2.text) :
    Document.memberTexts (memberDocuments none members) = memberTexts members := by
  induction members with
  | nil => rfl
  | cons m members ih =>
      rw [List.forall_mem_cons] at h
      rw [memberDocuments, Document.memberTexts, memberTexts, h.1, ih h.2,
        ← StringText.body_ofString]
      simp [lineSpaces, valueSpaces, Spaces.none]

theorem text_compact (v : Value) : (v.document none).text = v.text := by
  induction v with
  | null | bool => rfl
  | number n => exact n.text_literal
  | string value => exact StringText.body_ofString value
  | array items ih =>
      rw [Value.document, Document.text, Option.map_none, itemTexts_compact ih, Value.text]
      cases items.isEmpty <;> simp [lineSpaces, Spaces.none]
  | object members ih =>
      rw [Value.document, Document.text, Option.map_none, memberTexts_compact ih, Value.text]
      cases members.isEmpty <;> simp [lineSpaces, Spaces.none]

/-! ### The spread form -/

theorem joinWith_newLine (level : Nat) (parts : List (List Char)) :
    joinWith [','] (parts.map (newLine level ++ ·)) =
      if parts.isEmpty then [] else newLine level ++ joinWith (',' :: newLine level) parts := by
  cases parts with
  | nil => rfl
  | cons part parts =>
      rw [List.map_cons, joinWith_cons, joinWith_cons, List.flatMap_map]
      simp

theorem spread_eq (level : Nat) (opening closing : Char) (parts : List (List Char)) :
    spread level opening closing parts =
      opening :: joinWith [','] (parts.map (newLine (level + 1) ++ ·)) ++
        (if parts.isEmpty then [] else newLine level) ++ [closing] := by
  rw [spread, joinWith_newLine]
  cases parts <;> simp

theorem itemTexts_spread (level : Nat) {items : List Value}
    (h : ∀ item ∈ items, ∀ level, (item.document (some level)).text = item.spreadText level) :
    Document.itemTexts (itemDocuments (some level) items) =
      (spreadItems level items).map (newLine level ++ ·) := by
  induction items with
  | nil => rfl
  | cons item items ih =>
      rw [List.forall_mem_cons] at h
      rw [itemDocuments, Document.itemTexts, spreadItems, List.map_cons, h.1, ih h.2]
      simp [lineSpaces, Spaces.none]

theorem memberTexts_spread (level : Nat) {members : List (String × Value)}
    (h : ∀ m ∈ members, ∀ level, (m.2.document (some level)).text = m.2.spreadText level) :
    Document.memberTexts (memberDocuments (some level) members) =
      (spreadMembers level members).map (newLine level ++ ·) := by
  induction members with
  | nil => rfl
  | cons m members ih =>
      rw [List.forall_mem_cons] at h
      rw [memberDocuments, Document.memberTexts, spreadMembers, List.map_cons, h.1, ih h.2,
        ← StringText.body_ofString]
      simp [lineSpaces, valueSpaces, Spaces.none]

theorem text_spread (v : Value) (level : Nat) :
    (v.document (some level)).text = v.spreadText level := by
  induction v generalizing level with
  | null | bool => rfl
  | number n => exact n.text_literal
  | string value => exact StringText.body_ofString value
  | array items ih =>
      rw [Value.document, Document.text, Option.map_some, itemTexts_spread _ ih,
        Value.spreadText, spread_eq]
      cases items <;> simp [spreadItems, lineSpaces, Spaces.none]
  | object members ih =>
      rw [Value.document, Document.text, Option.map_some, memberTexts_spread _ ih,
        Value.spreadText, spread_eq]
      cases members <;> simp [spreadMembers, lineSpaces, Spaces.none]

/-! ### What is read -/

theorem StringText.value?_ofString (value : String) :
    (StringText.ofString value).value? μ = some value := by
  have hbody : (ofString value).body = value.toList.flatMap writeChar ++ '"' :: [] := by
    rw [body, ofString, List.flatMap_def]
  rw [StringText.value?, hbody, readString_written]
  simp [Except.toOption]

theorem itemValues?_document {level? : Option Nat} {items : List Value} {levels : Nat}
    (h : ∀ item ∈ items, (item.document level?).value? μ levels = item.within? μ levels) :
    Document.itemValues? μ (itemDocuments level? items) levels =
      if itemsDepth items ≤ levels then rereadItems? μ items else none := by
  induction items with
  | nil => rfl
  | cons item items ih =>
      rw [List.forall_mem_cons] at h
      rw [itemDocuments, Document.itemValues?, h.1, ih h.2, itemsDepth, rereadItems?,
        Value.within?]
      by_cases hitem : item.depth ≤ levels
      · by_cases hitems : itemsDepth items ≤ levels
        · rw [if_pos hitem, if_pos hitems, if_pos (Nat.max_le.2 ⟨hitem, hitems⟩)]
        · have hmax : ¬ max item.depth (itemsDepth items) ≤ levels := by omega
          rw [if_neg hitems, if_neg hmax]
          cases (if item.depth ≤ levels then item.reread? μ else none) <;> rfl
      · have hmax : ¬ max item.depth (itemsDepth items) ≤ levels := by omega
        rw [if_neg hitem, if_neg hmax]
        rfl

theorem memberValues?_document {level? : Option Nat} {members : List (String × Value)}
    {levels : Nat}
    (h : ∀ m ∈ members, (m.2.document level?).value? μ levels = m.2.within? μ levels) :
    Document.memberValues? μ (memberDocuments level? members) levels =
      if membersDepth members ≤ levels then rereadMembers? μ members else none := by
  induction members with
  | nil => rfl
  | cons m members ih =>
      rw [List.forall_mem_cons] at h
      rw [memberDocuments, Document.memberValues?, StringText.value?_ofString, h.1, ih h.2,
        membersDepth, rereadMembers?, Value.within?]
      by_cases hvalue : m.2.depth ≤ levels
      · by_cases hmembers : membersDepth members ≤ levels
        · rw [if_pos hvalue, if_pos hmembers, if_pos (Nat.max_le.2 ⟨hvalue, hmembers⟩)]
          rfl
        · have hmax : ¬ max m.2.depth (membersDepth members) ≤ levels := by omega
          rw [if_neg hmembers, if_neg hmax]
          cases (if m.2.depth ≤ levels then m.2.reread? μ else none) <;> rfl
      · have hmax : ¬ max m.2.depth (membersDepth members) ≤ levels := by omega
        rw [if_neg hvalue, if_neg hmax]
        rfl

/-- A reader with so many levels left, on either form of a value. -/
theorem value?_document (v : Value) (level? : Option Nat) (levels : Nat) :
    (v.document level?).value? μ levels = v.within? μ levels := by
  induction v generalizing level? levels with
  | null => rfl
  | bool value => cases value <;> rfl
  | number n =>
      rw [Value.document, Document.value?, Literal.value?, n.text_literal, Value.within?,
        Value.depth, if_pos (Nat.zero_le _)]
      rfl
  | string value =>
      rw [Value.document, Document.value?, Literal.value?_string, StringText.value?_ofString]
      rfl
  | array items ih =>
      rw [Value.document, Value.within?, Value.depth, Value.reread?]
      cases levels with
      | zero => rfl
      | succ levels =>
          rw [Document.value?, itemValues?_document fun item hitem => ih item hitem _ _]
          by_cases hdepth : itemsDepth items ≤ levels
          · rw [if_pos hdepth, if_pos (Nat.succ_le_succ hdepth)]
          · rw [if_neg hdepth, if_neg (by omega)]
            rfl
  | object members ih =>
      rw [Value.document, Value.within?, Value.depth, Value.reread?]
      cases levels with
      | zero => rfl
      | succ levels =>
          rw [Document.value?, memberValues?_document fun m hm => ih m hm _ _]
          by_cases hdepth : membersDepth members ≤ levels
          · rw [if_pos hdepth, if_pos (Nat.succ_le_succ hdepth)]
          · rw [if_neg hdepth, if_neg (by omega)]
            rfl

end Json
end FilterLang
