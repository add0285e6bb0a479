import FilterLang.Proofs.JsonLiterals
import FilterLang.Proofs.JsonNesting

/-!
# JSON texts with all that is written in them

A document is a text of the format taken apart without loss: the literals as they
are written, and the space around each element, name and value.

The reader of values takes a document to its end or fails on it, whatever stands
behind.  What it gives says nothing of the space, and depends on the number of
levels that are left only in that deeper brackets cannot be read.

The step is one reader on one part in front of anything that cannot prolong a
number; lists of elements and members follow by induction, and documents by
induction on their structure.
-/

namespace FilterLang
namespace Json

variable {μ α β σ : Type}

/-! ## Space -/

/-- Space that may stand between the parts of a text. -/
structure Spaces where
  text : List Char
  isSpace : ∀ c ∈ text, isSpace c = true

def Spaces.none : Spaces :=
  ⟨[], by simp⟩

theorem skipSpace_spaces (spaces : Spaces) (text : List Char) :
    skipSpace (spaces.text ++ text) = skipSpace text :=
  List.dropWhile_append_of_pos spaces.isSpace

theorem skipSpace_append {text tail : List Char} {c : Char} (h : skipSpace text = c :: tail)
    (rest : List Char) : skipSpace (text ++ rest) = c :: (tail ++ rest) := by
  unfold skipSpace at h ⊢
  rw [List.dropWhile_append, h]
  rfl

theorem endsNumber_cons {c : Char} (hc : c ∈ [',', ']', '}']) (rest : List Char) :
    EndsNumber (c :: rest) := by
  simp only [List.mem_cons, List.not_mem_nil, or_false] at hc
  intro d hd
  cases hd
  rcases hc with rfl | rfl | rfl <;> decide

theorem endsNumber_spaces (spaces : Spaces) {rest : List Char} (hrest : EndsNumber rest) :
    EndsNumber (spaces.text ++ rest) := by
  have hspace : ∀ c, isSpace c = true → c.isDigit = false ∧ c ≠ '.' ∧ c ≠ 'e' ∧ c ≠ 'E' := by
    intro c hc
    simp only [isSpace, Bool.or_eq_true, beq_iff_eq] at hc
    rcases hc with ((rfl | rfl) | rfl) | rfl <;> decide
  obtain ⟨text, hspaces⟩ := spaces
  cases text with
  | nil => exact hrest
  | cons c text =>
      intro d hd
      cases hd
      exact hspace c (hspaces c (List.mem_cons_self ..))

theorem endsNumber_rest (texts : List (List Char)) (inner : Spaces) {closing : Char}
    (hclosing : closing ∈ [',', ']', '}']) (rest : List Char) :
    EndsNumber (texts.flatMap ([','] ++ ·) ++ (inner.text ++ closing :: rest)) := by
  cases texts with
  | nil => exact endsNumber_spaces inner (endsNumber_cons hclosing rest)
  | cons text texts => exact endsNumber_cons (by simp) _

/-! ## Elements -/

/-- The reader takes the whole text save space at its end and gives `a?`, or fails if
that is none, whatever stands behind. -/
structure Reads (reader : Reader μ α) (text : List Char) (a? : Option α) : Prop where
  starts : ∃ c tail, skipSpace text = c :: tail ∧ c ≠ ']'
  run : ∃ after : Spaces, ∀ rest, EndsNumber rest →
    (reader.run (text ++ rest)).toOption = a?.map fun a => (a, after.text ++ rest)

theorem moreElements_close (item : Reader μ α) {text rest : List Char}
    (h : skipSpace text = ']' :: rest) : moreElements item text = .ok ([], rest) := by
  rw [moreElements]
  split
  next h' =>
    rw [h] at h'
    contradiction
  next h' =>
    rw [h] at h'
    cases h'
    rw [if_pos rfl]

theorem moreElements_comma (item : Reader μ α) {c : Char} {text next tail : List Char}
    (hcomma : skipSpace text = ',' :: next) (hskip : skipSpace next = c :: tail) (hc : c ≠ ']') :
    (moreElements item text).toOption =
      (item.run next).toOption.bind fun (a, rest) =>
        (moreElements item rest).toOption.map fun (items, rest) => (a :: items, rest) := by
  rw [moreElements]
  split
  next h =>
    rw [hcomma] at h
    contradiction
  next d rest h =>
    rw [hcomma] at h
    cases h
    rw [if_neg (by decide), if_pos rfl, hskip]
    split
    next h => contradiction
    next h =>
      cases h
      contradiction
    next =>
      split
      next f h => rw [h]; rfl
      next a rest h =>
        dsimp only
        rw [toOption_map]
        simp only [h]
        rfl

/-- Elements after the first, each with a comma in front of it. -/
theorem moreElements_written {item : Reader μ α} {write : β → List Char} {parse : β → Option α}
    {items : List β} (h : ∀ b ∈ items, Reads item (write b) (parse b)) (spaces inner : Spaces)
    (rest : List Char) :
    (moreElements item (spaces.text ++
        ((items.map write).flatMap ([','] ++ ·) ++ (inner.text ++ ']' :: rest)))).toOption =
      (items.mapM parse).map fun values => (values, rest) := by
  induction items generalizing spaces with
  | nil =>
      rw [List.map_nil, List.flatMap_nil, List.nil_append, moreElements_close]
      · rfl
      · rw [skipSpace_spaces, skipSpace_spaces]
        rfl
  | cons b items ih =>
      rw [List.forall_mem_cons] at h
      have hends := endsNumber_rest (items.map write) inner (by simp : ']' ∈ [',', ']', '}']) rest
      obtain ⟨c, tail, hstart, hc⟩ := h.1.starts
      obtain ⟨after, hrun⟩ := h.1.run
      rw [List.map_cons, List.flatMap_cons, List.append_assoc, List.append_assoc,
        List.singleton_append, moreElements_comma item _ (skipSpace_append hstart _) hc,
        hrun _ hends, List.mapM_cons]
      · cases parse b with
        | none => rfl
        | some a =>
            rw [Option.map_some, Option.bind_some]
            dsimp only
            rw [ih h.2]
            cases items.mapM parse <;> rfl
      · rw [skipSpace_spaces]
        rfl

theorem readElements_written {item : Reader μ α} {write : β → List Char} {parse : β → Option α}
    {items : List β} (h : ∀ b ∈ items, Reads item (write b) (parse b)) (inner : Spaces)
    (rest : List Char) :
    (readElements item
        (joinWith [','] (items.map write) ++ (inner.text ++ ']' :: rest))).toOption =
      (items.mapM parse).map fun values => (values, rest) := by
  cases items with
  | nil =>
      have hclose : skipSpace (inner.text ++ ']' :: rest) = ']' :: rest := by
        rw [skipSpace_spaces]
        rfl
      rw [List.map_nil, joinWith, List.nil_append, readElements, hclose]
      rfl
  | cons b items =>
      rw [List.forall_mem_cons] at h
      have hends := endsNumber_rest (items.map write) inner (by simp : ']' ∈ [',', ']', '}']) rest
      obtain ⟨c, tail, hstart, hc⟩ := h.1.starts
      obtain ⟨after, hrun⟩ := h.1.run
      rw [List.map_cons, joinWith_cons, List.append_assoc, readElements, skipSpace_append hstart]
      split
      next h => contradiction
      next h =>
        cases h
        contradiction
      next =>
        rw [toOption_bind, hrun _ hends, List.mapM_cons]
        cases parse b with
        | none => rfl
        | some a =>
            rw [Option.map_some, Option.bind_some, toOption_bind,
              moreElements_written h.2 after inner rest]
            cases items.mapM parse <;> rfl

/-! ## Members -/

/-- How a member changes the state, for every state and whatever stands behind. -/
structure ReadsMember (member : σ → String → Reader μ σ) (text : List Char)
    (step : σ → Option σ) : Prop where
  run : ∃ tail, skipSpace text = '"' :: tail ∧ ∃ after : Spaces, ∀ state rest, EndsNumber rest →
    (readMember (member state) (tail ++ rest)).toOption =
      (step state).map fun state => (state, after.text ++ rest)

theorem moreMembers_close (member : σ → String → Reader μ σ) (state : σ)
    {text rest : List Char} (h : skipSpace text = '}' :: rest) :
    moreMembers member state text = .ok (state, rest) := by
  rw [moreMembers]
  split
  next h' =>
    rw [h] at h'
    contradiction
  next h' =>
    rw [h] at h'
    cases h'
    rw [if_pos rfl]

theorem moreMembers_comma (member : σ → String → Reader μ σ) (state : σ)
    {text next tail : List Char} (hcomma : skipSpace text = ',' :: next)
    (hquote : skipSpace next = '"' :: tail) :
    (moreMembers member state text).toOption =
      (readMember (member state) tail).toOption.bind fun (state', rest) =>
        (moreMembers member state' rest).toOption := by
  rw [moreMembers]
  split
  next h =>
    rw [hcomma] at h
    contradiction
  next d rest h =>
    rw [hcomma] at h
    cases h
    rw [if_neg (by decide), if_pos rfl]
    split
    next h =>
      rw [hquote] at h
      contradiction
    next d after h =>
      rw [hquote] at h
      cases h
      rw [if_pos rfl]
      split
      next f h => rw [h]; rfl
      next state' rest h =>
        simp only [h]
        rfl

theorem moreMembers_written {member : σ → String → Reader μ σ} {write : β → List Char}
    {step : σ → β → Option σ} {members : List β}
    (h : ∀ m ∈ members, ReadsMember member (write m) fun state => step state m)
    (state : σ) (spaces inner : Spaces) (rest : List Char) :
    (moreMembers member state (spaces.text ++
        ((members.map write).flatMap ([','] ++ ·) ++ (inner.text ++ '}' :: rest)))).toOption =
      (members.foldlM step state).map fun state => (state, rest) := by
  induction members generalizing state spaces with
  | nil =>
      rw [List.map_nil, List.flatMap_nil, List.nil_append, moreMembers_close]
      · rfl
      · rw [skipSpace_spaces, skipSpace_spaces]
        rfl
  | cons m members ih =>
      rw [List.forall_mem_cons] at h
      have hends := endsNumber_rest (members.map write) inner
        (by simp : '}' ∈ [',', ']', '}']) rest
      obtain ⟨tail, hquote, after, hrun⟩ := h.1.run
      rw [List.map_cons, List.flatMap_cons, List.append_assoc, List.append_assoc,
        List.singleton_append, moreMembers_comma member state _ (skipSpace_append hquote _),
        hrun _ _ hends, List.foldlM_cons]
      · cases step state m with
        | none => rfl
        | some state' =>
            rw [Option.map_some, Option.bind_some]
            exact ih h.2 state' after
      · rw [skipSpace_spaces]
        rfl

theorem readMembers_quote (member : σ → String → Reader μ σ) (state : σ) {text tail : List Char}
    (h : skipSpace text = '"' :: tail) :
    readMembers member state text =
      readMember (member state) tail >>= fun (state, rest) => moreMembers member state rest := by
  rw [readMembers, h]
  rfl

theorem readMembers_written {member : σ → String → Reader μ σ} {write : β → List Char}
    {step : σ → β → Option σ} {members : List β}
    (h : ∀ m ∈ members, ReadsMember member (write m) fun state => step state m)
    (state : σ) (inner : Spaces) (rest : List Char) :
    (readMembers member state
        (joinWith [','] (members.map write) ++ (inner.text ++ '}' :: rest))).toOption =
      (members.foldlM step state).map fun state => (state, rest) := by
  cases members with
  | nil =>
      have hclose : skipSpace (inner.text ++ '}' :: rest) = '}' :: rest := by
        rw [skipSpace_spaces]
        rfl
      rw [List.map_nil, joinWith, List.nil_append, readMembers, hclose]
      rfl
  | cons m members =>
      rw [List.forall_mem_cons] at h
      have hends := endsNumber_rest (members.map write) inner
        (by simp : '}' ∈ [',', ']', '}']) rest
      obtain ⟨tail, hquote, after, hrun⟩ := h.1.run
      rw [List.map_cons, joinWith_cons, List.append_assoc,
        readMembers_quote member state (skipSpace_append hquote _), toOption_bind,
        hrun _ _ hends, List.foldlM_cons]
      cases step state m with
      | none => rfl
      | some state' =>
          rw [Option.map_some, Option.bind_some]
          exact moreMembers_written h.2 state' after inner rest

/-! ## Documents -/

/-- A part of a text with the space around it. -/
structure Padded (α : Type) where
  before : Spaces
  item : α
  after : Spaces

/-- A text of the format; the space inside brackets is that in front of the closing one. -/
inductive Document where
  | literal (l : Literal)
  | array (inner : Spaces) (items : List (Padded Document))
  | object (inner : Spaces) (members : List (Padded StringText × Padded Document))

namespace Document

@[elab_as_elim, induction_eliminator]
theorem documentInduction {motive : Document → Prop} (literal : ∀ l, motive (.literal l))
    (array : ∀ inner items, (∀ p ∈ items, motive p.item) → motive (.array inner items))
    (object : ∀ inner members, (∀ m ∈ members, motive m.2.item) → motive (.object inner members))
    (d : Document) : motive d := by
  refine @Document.rec motive (fun items => ∀ p ∈ items, motive p.item)
    (fun members => ∀ m ∈ members, motive m.2.item) (fun p => motive p.item)
    (fun m => motive m.2.item) literal array object ?_ ?_ ?_ ?_ ?_ ?_ d
  · simp
  · intro p items hp hitems
    rw [List.forall_mem_cons]
    exact ⟨hp, hitems⟩
  · simp
  · intro m members hm hmembers
    rw [List.forall_mem_cons]
    exact ⟨hm, hmembers⟩
  · intro before item after hitem
    exact hitem
  · intro name value hvalue
    exact hvalue

mutual

def text : Document → List Char
  | .literal l => l.text
  | .array inner items => '[' :: joinWith [','] (itemTexts items) ++ inner.text ++ [']']
  | .object inner members => '{' :: joinWith [','] (memberTexts members) ++ inner.text ++ ['}']

def itemTexts : List (Padded Document) → List (List Char)
  | [] => []
  | ⟨before, item, after⟩ :: items =>
      (before.text ++ item.text ++ after.text) :: itemTexts items

def memberTexts : List (Padded StringText × Padded Document) → List (List Char)
  | [] => []
  | (⟨before, name, after⟩, ⟨before', value, after'⟩) :: members =>
      (before.text ++ '"' :: name.body ++ after.text ++
        ':' :: before'.text ++ value.text ++ after'.text) :: memberTexts members

end

mutual

/-- What a reader with so many levels left gets from the document. -/
def value? (μ : Type) : Document → (levels : Nat) → Option Value
  | .literal l, _ => l.value? μ
  | .array .., 0 => none
  | .array _ items, levels + 1 => (itemValues? μ items levels).map .array
  | .object .., 0 => none
  | .object _ members, levels + 1 => (memberValues? μ members levels).map .object

def itemValues? (μ : Type) : List (Padded Document) → (levels : Nat) → Option (List Value)
  | [], _ => some []
  | ⟨_, item, _⟩ :: items, levels => do
      return (← item.value? μ levels) :: (← itemValues? μ items levels)

def memberValues? (μ : Type) : List (Padded StringText × Padded Document) → (levels : Nat) →
    Option (List (String × Value))
  | [], _ => some []
  | (name, ⟨_, value, _⟩) :: members, levels => do
      let name ← name.item.value? μ
      return (name, ← value.value? μ levels) :: (← memberValues? μ members levels)

end

def paddedText (p : Padded Document) : List Char :=
  p.before.text ++ p.item.text ++ p.after.text

def memberText (m : Padded StringText × Padded Document) : List Char :=
  m.1.before.text ++ '"' :: m.1.item.body ++ m.1.after.text ++ ':' :: paddedText m.2

/-- A member as a reader with so many levels left gets it. -/
def memberValue? (μ : Type) (levels : Nat) (m : Padded StringText × Padded Document) :
    Option (String × Value) := do
  let name ← m.1.item.value? μ
  return (name, ← m.2.item.value? μ levels)

theorem itemTexts_eq_map (items : List (Padded Document)) :
    itemTexts items = items.map paddedText := by
  induction items with
  | nil => rfl
  | cons p items ih => rw [itemTexts, ih]; rfl

theorem memberTexts_eq_map (members : List (Padded StringText × Padded Document)) :
    memberTexts members = members.map memberText := by
  induction members with
  | nil => rfl
  | cons m members ih =>
      rw [memberTexts, ih, List.map_cons, memberText, paddedText]
      simp only [List.append_assoc, List.cons_append]

theorem itemValues?_eq_mapM (items : List (Padded Document)) (levels : Nat) :
    itemValues? μ items levels = items.mapM fun p => p.item.value? μ levels := by
  induction items with
  | nil => rfl
  | cons p items ih => rw [itemValues?, ih, List.mapM_cons]

theorem memberValues?_eq_mapM (members : List (Padded StringText × Padded Document))
    (levels : Nat) : memberValues? μ members levels = members.mapM (memberValue? μ levels) := by
  induction members with
  | nil => rfl
  | cons m members ih =>
      rw [memberValues?, ih, List.mapM_cons, memberValue?]
      cases m.1.item.value? μ with
      | none => rfl
      | some name => cases m.2.item.value? μ levels <;> rfl

end Document

/-! ## Reading documents -/

/-- A literal stands for a value without brackets. -/
theorem Literal.depth_value? {l : Literal} {v : Value} (h : l.value? μ = some v) :
    v.depth = 0 := by
  cases l with
  | null =>
      cases h
      rfl
  | bool value =>
      cases value <;>
        · cases h
          rfl
  | number negative numeral valid =>
      have hread : (Literal.number negative numeral valid).value? μ =
          (readNumber (μ := μ) negative numeral).toOption.map fun read => .number read.1 := by
        rw [Literal.value?]
        cases negative with
        | false =>
            have hnumeral := runValue_numeral (μ := μ) none valid []
            rw [List.append_nil] at hnumeral
            rw [show (Literal.number false numeral valid).text = numeral from rfl, hnumeral,
              toOption_map, Option.map_map]
            rfl
        | true =>
            rw [show (Literal.number true numeral valid).text = '-' :: numeral from rfl,
              runValue_negative, toOption_map, Option.map_map]
            rfl
      rw [hread] at h
      obtain ⟨read, -, rfl⟩ := Option.map_eq_some_iff.1 h
      rfl
  | string s =>
      rw [Literal.value?_string] at h
      obtain ⟨value, -, rfl⟩ := Option.map_eq_some_iff.1 h
      rfl

theorem runValue_spaces (inner? : Option (Reader μ Value)) (spaces : Spaces) (text : List Char) :
    runValue inner? (spaces.text ++ text) = runValue inner? text := by
  rw [runValue, skipSpace_spaces, ← runValue]

theorem valueReader_spaces (levels : Nat) (spaces : Spaces) (text : List Char) :
    (valueReader (μ := μ) levels).run (spaces.text ++ text) = (valueReader levels).run text := by
  cases levels with
  | zero => exact runValue_spaces none spaces text
  | succ levels => exact runValue_spaces (some (valueReader levels)) spaces text

/-- A reader with so many levels left, on a document without space around it. -/
structure ReadsDocument (μ : Type) (levels : Nat) (d : Document) : Prop where
  starts : ∃ c tail, d.text = c :: tail ∧ isSpace c = false ∧ c ≠ ']'
  run : ∀ rest, EndsNumber rest →
    ((valueReader (μ := μ) levels).run (d.text ++ rest)).toOption =
      (d.value? μ levels).map fun v => (v, rest)

theorem ReadsDocument.run_padded {levels : Nat} {p : Padded Document}
    (h : ReadsDocument μ levels p.item) {rest : List Char} (hrest : EndsNumber rest) :
    ((valueReader (μ := μ) levels).run (Document.paddedText p ++ rest)).toOption =
      (p.item.value? μ levels).map fun v => (v, p.after.text ++ rest) := by
  rw [Document.paddedText, List.append_assoc, List.append_assoc, valueReader_spaces,
    h.run _ (endsNumber_spaces p.after hrest)]

theorem ReadsDocument.padded {levels : Nat} {p : Padded Document}
    (h : ReadsDocument μ levels p.item) :
    Reads (valueReader (μ := μ) levels) (Document.paddedText p) (p.item.value? μ levels) := by
  constructor
  · obtain ⟨c, tail, htext, hspace, hc⟩ := h.starts
    refine ⟨c, tail ++ p.after.text, ?_, hc⟩
    rw [Document.paddedText, List.append_assoc, skipSpace_spaces, htext]
    exact skipSpace_of_not_isSpace hspace _
  · exact ⟨p.after, fun rest hrest => h.run_padded hrest⟩

theorem afterColon_spaces (value : Reader μ α) (spaces : Spaces) (text : List Char) :
    value.afterColon.run (spaces.text ++ ':' :: text) = value.run text := by
  have hskip : skipSpace (spaces.text ++ ':' :: text) = ':' :: text := by
    rw [skipSpace_spaces]
    rfl
  simp only [Reader.afterColon, hskip]

/-- A member is read by its name first, and then as the reader for that name says. -/
theorem readsMember_memberText {member : σ → String → Reader μ σ}
    {m : Padded StringText × Padded Document} {step : σ → Option σ}
    (h : ∀ state rest, EndsNumber rest →
      ((m.1.item.value? μ).bind fun name => ((member state name).run
        (m.1.after.text ++ ':' :: (Document.paddedText m.2 ++ rest))).toOption) =
          (step state).map fun state => (state, m.2.after.text ++ rest)) :
    ReadsMember member (Document.memberText m) step := by
  refine ⟨m.1.item.body ++ (m.1.after.text ++ ':' :: Document.paddedText m.2), ?_,
    m.2.after, ?_⟩
  · rw [Document.memberText, List.append_assoc, List.append_assoc, skipSpace_spaces]
    exact skipSpace_of_not_isSpace rfl _
  · intro state rest hrest
    rw [List.append_assoc, List.append_assoc, List.cons_append, readMember, toOption_bind,
      m.1.item.readString_body, ← h state rest hrest]
    cases m.1.item.value? μ with
    | none => rfl
    | some name => simp

/-- How a member is gathered by a reader with so many levels left. -/
def gatherDocument (μ : Type) (levels : Nat) (gathered : List (String × Value))
    (m : Padded StringText × Padded Document) : Option (List (String × Value)) :=
  (Document.memberValue? μ levels m).map (· :: gathered)

/-- Folding over what is read of each item is reading all items first. -/
theorem foldlM_bind (f : β → Option α) (g : σ → α → Option σ) (items : List β)
    (state : σ) :
    items.foldlM (fun state b => (f b).bind (g state)) state =
      (items.mapM f).bind fun values => values.foldlM g state := by
  induction items generalizing state with
  | nil => rfl
  | cons b items ih =>
      rw [List.foldlM_cons, List.mapM_cons]
      cases f b with
      | none => rfl
      | some a =>
          simp only [Option.bind_some, Option.bind_eq_bind]
          cases hstep : g state a with
          | none =>
              cases items.mapM f with
              | none => rfl
              | some values => simp [List.foldlM_cons, hstep]
          | some state' =>
              rw [Option.bind_some, ih]
              cases items.mapM f with
              | none => rfl
              | some values => simp [List.foldlM_cons, hstep]

theorem foldlM_map_cons (f : β → Option α) (items : List β) (gathered : List α) :
    items.foldlM (fun gathered b => (f b).map (· :: gathered)) gathered =
      (items.mapM f).map fun values => values.reverse ++ gathered := by
  have hgather : ∀ values : List α,
      values.foldlM (fun gathered a => some (a :: gathered)) gathered =
        some (values.reverse ++ gathered) := by
    intro values
    exact List.foldlM_pure.trans (congrArg some (by simp))
  have hbind := foldlM_bind f (fun gathered a => some (a :: gathered)) items gathered
  simp only [hgather] at hbind
  simp only [Option.map_eq_bind]
  exact hbind

theorem readsMember_gather {levels : Nat} {m : Padded StringText × Padded Document}
    (h : ReadsDocument μ levels m.2.item) :
    ReadsMember (gatherMember (valueReader (μ := μ) levels)) (Document.memberText m)
      fun gathered => gatherDocument μ levels gathered m := by
  apply readsMember_memberText
  intro gathered rest hrest
  rw [gatherDocument, Document.memberValue?]
  cases m.1.item.value? μ with
  | none => rfl
  | some name =>
      have hcolon : (gatherMember (valueReader (μ := μ) levels) gathered name).run
          (m.1.after.text ++ ':' :: (Document.paddedText m.2 ++ rest)) =
            ((valueReader levels).run (Document.paddedText m.2 ++ rest)).map
              fun (value, rest) => ((name, value) :: gathered, rest) := by
        rw [gatherMember, Reader.map]
        dsimp only
        rw [afterColon_spaces]
      dsimp only [Option.bind_some]
      rw [hcolon, toOption_map, h.run_padded hrest]
      cases m.2.item.value? μ levels <;> rfl

theorem reads_literal (l : Literal) (levels : Nat) : ReadsDocument μ levels (.literal l) where
  starts := by
    obtain ⟨c, tail, htext, hspace, hc⟩ := l.exists_text_eq_cons
    exact ⟨c, tail, htext, hspace, fun h => hc (by simp [h])⟩
  run := by
    intro rest hrest
    cases levels with
    | zero => exact l.runValue_text none hrest
    | succ levels => exact l.runValue_text (some (valueReader levels)) hrest

theorem reads_array {inner : Spaces} {items : List (Padded Document)}
    (h : ∀ p ∈ items, ∀ levels, ReadsDocument μ levels p.item) (levels : Nat) :
    ReadsDocument μ levels (.array inner items) where
  starts := ⟨'[', _, rfl, rfl, by decide⟩
  run := by
    intro rest _
    cases levels with
    | zero => rfl
    | succ levels =>
        have hopen : (valueReader (μ := μ) (levels + 1)).run
            ((Document.array inner items).text ++ rest) =
              (readElements (valueReader levels) (joinWith [','] (items.map Document.paddedText) ++
                (inner.text ++ ']' :: rest))).map fun read => (.array read.1, read.2) := by
          simp only [Document.text, Document.itemTexts_eq_map, List.append_assoc,
            List.cons_append, List.nil_append]
          rfl
        rw [hopen, toOption_map, readElements_written (fun p hp => (h p hp levels).padded),
          Document.value?, Document.itemValues?_eq_mapM]
        cases items.mapM fun p => p.item.value? μ levels <;> rfl

theorem reads_object {inner : Spaces} {members : List (Padded StringText × Padded Document)}
    (h : ∀ m ∈ members, ∀ levels, ReadsDocument μ levels m.2.item) (levels : Nat) :
    ReadsDocument μ levels (.object inner members) where
  starts := ⟨'{', _, rfl, rfl, by decide⟩
  run := by
    intro rest _
    cases levels with
    | zero => rfl
    | succ levels =>
        have hopen : (valueReader (μ := μ) (levels + 1)).run
            ((Document.object inner members).text ++ rest) =
              (readMembers (gatherMember (valueReader levels)) []
                (joinWith [','] (members.map Document.memberText) ++
                  (inner.text ++ '}' :: rest))).map
                    fun read => (.object read.1.reverse, read.2) := by
          simp only [Document.text, Document.memberTexts_eq_map, List.append_assoc,
            List.cons_append, List.nil_append]
          rfl
        rw [hopen, toOption_map,
          readMembers_written (fun m hm => readsMember_gather (h m hm levels)),
          Document.value?, Document.memberValues?_eq_mapM]
        unfold gatherDocument
        rw [foldlM_map_cons]
        cases members.mapM (Document.memberValue? μ levels) with
        | none => rfl
        | some values => simp

/-- A document is read to its end or not at all. -/
theorem reads_document (d : Document) (levels : Nat) : ReadsDocument μ levels d := by
  induction d generalizing levels with
  | literal l => exact reads_literal l levels
  | array inner items ih => exact reads_array ih levels
  | object inner members ih => exact reads_object ih levels

end Json
end FilterLang
