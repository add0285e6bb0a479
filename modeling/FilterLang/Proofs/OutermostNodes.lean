import FilterLang.Interchange.Tree
import FilterLang.Proofs.DecodedTrees
import FilterLang.Proofs.JsonDocuments

/-!
# The outermost node of a document

The outermost node is read by a reader of its own, which turns the kind into a kind
at once and gathers the other members or items as values.  As far as success goes it
may as well read the whole document as a value and decode that, if the kind is named
by a string.  So the depth that is allowed is that of the whole text.
-/

namespace FilterLang
namespace Interchange

open Json (Value fail Document Padded StringText Spaces EndsNumber Reads ReadsMember toOption_map
  toOption_bind toOption_mapError)

/-! ## Kinds that are named -/

/-- The kind that a value names by a string. -/
def kindNamed? : Value → Option Kind
  | .string name => Kind.ofName? name
  | _ => none

/-- The kind that a document names by a string. -/
def kindWritten? : Document → Option Kind
  | .literal l => (l.value? Mismatch).bind kindNamed?
  | _ => none

theorem kindWritten?_eq (d : Document) (levels : Nat) :
    kindWritten? d = (d.value? Mismatch levels).bind kindNamed? := by
  cases d with
  | literal l => rfl
  | array inner items =>
      cases levels with
      | zero => rfl
      | succ levels =>
          rw [Document.value?]
          cases Document.itemValues? Mismatch items levels <;> rfl
  | object inner members =>
      cases levels with
      | zero => rfl
      | succ levels =>
          rw [Document.value?]
          cases Document.memberValues? Mismatch members levels <;> rfl

/-- Where no bracket opens, the kind is read as a value. -/
theorem runKind_of_no_bracket {text : List Char}
    (h : ∀ c ∈ (Json.skipSpace text).head?, c ≠ '[' ∧ c ≠ '{') :
    (runKind text).toOption = (Json.runValue (μ := Mismatch) none text).toOption.bind
      fun read => (kindNamed? read.1).map fun k => (k, read.2) := by
  rw [runKind]
  split
  next hskip =>
    rw [hskip] at h
    exact absurd rfl (h '[' rfl).1
  next hskip =>
    rw [hskip] at h
    exact absurd rfl (h '{' rfl).2
  next =>
    cases hvalue : Json.runValue (μ := Mismatch) none text with
    | error f => rfl
    | ok read =>
        obtain ⟨v, rest⟩ := read
        cases v with
        | string name =>
            dsimp only [Except.toOption, Option.bind_some]
            rw [kindNamed?, Kind.ofName]
            cases Kind.ofName? name <;> rfl
        | null | bool | number | array | object => rfl

theorem runKind_padded (p : Padded Document) {rest : List Char} (hrest : EndsNumber rest) :
    (runKind (Document.paddedText p ++ rest)).toOption =
      (kindWritten? p.item).map fun k => (k, p.after.text ++ rest) := by
  have hends := Json.endsNumber_spaces p.after hrest
  have htext : Document.paddedText p ++ rest =
      p.before.text ++ (p.item.text ++ (p.after.text ++ rest)) := by
    simp only [Document.paddedText, List.append_assoc]
  rw [htext]
  cases hitem : p.item with
  | array inner items =>
      rw [runKind, Json.skipSpace_spaces]
      rfl
  | object inner members =>
      rw [runKind, Json.skipSpace_spaces]
      rfl
  | literal l =>
      obtain ⟨c, tail, hliteral, hspace, hc⟩ := l.exists_text_eq_cons
      have hhead : ∀ d ∈ (Json.skipSpace (p.before.text ++
          (l.text ++ (p.after.text ++ rest)))).head?, d ≠ '[' ∧ d ≠ '{' := by
        intro d hd
        rw [Json.skipSpace_spaces, hliteral, List.cons_append,
          Json.skipSpace_of_not_isSpace hspace] at hd
        cases hd
        simp only [List.mem_cons, List.not_mem_nil, or_false, not_or] at hc
        exact ⟨hc.1, hc.2.1⟩
      rw [Document.text, runKind_of_no_bracket hhead, Json.runValue_spaces,
        l.runValue_text none hends, kindWritten?]
      cases l.value? Mismatch <;> rfl

/-! ## Envelopes -/

/-- How a value under a name changes what has been read of the outermost object. -/
def openValue (opened : Opened) (member : String × Value) : Option Opened :=
  if member.1 = tagName then
    if opened.kind.isSome then none
    else (kindNamed? member.2).map fun k => { opened with kind := some k }
  else some { opened with members := member :: opened.members }

def openDocument (opened : Opened) (m : Padded StringText × Padded Document) : Option Opened :=
  (Document.memberValue? Mismatch (Json.maxDepth - 1) m).bind (openValue opened)

theorem toOption_repeatedKind {α : Type} (text : List Char) :
    (repeatedKind (α := α) text).toOption = none := by
  cases h : repeatedKind (α := α) text with
  | error f => rfl
  | ok read => exact absurd h repeatedKind_ne_ok

/-- A member of the outermost object is read as any other, and then opened. -/
theorem readsMember_open (m : Padded StringText × Padded Document) :
    ReadsMember openedMember (Document.memberText m) fun opened => openDocument opened m := by
  apply Json.readsMember_memberText
  intro opened rest hrest
  rw [openDocument, Document.memberValue?]
  cases m.1.item.value? Mismatch with
  | none => rfl
  | some name =>
      simp only [Option.bind_some, Option.bind_eq_bind, Option.pure_def]
      by_cases htag : name = tagName
      · cases hkind : opened.kind with
        | some k =>
            have hrepeated : openedMember opened name =
                ⟨repeatedKind, fun h => absurd h repeatedKind_ne_ok⟩ := by
              rw [openedMember, if_pos htag, hkind]
            rw [hrepeated, toOption_repeatedKind]
            cases m.2.item.value? Mismatch (Json.maxDepth - 1) with
            | none => rfl
            | some v => simp [openValue, htag, hkind]
        | none =>
            have hcolon : (openedMember opened name).run
                (m.1.after.text ++ ':' :: (Document.paddedText m.2 ++ rest)) =
                  (runKind (Document.paddedText m.2 ++ rest)).map
                    fun read => ({ opened with kind := some read.1 }, read.2) := by
              rw [openedMember, if_pos htag, hkind]
              dsimp only [Json.Reader.map]
              rw [Json.afterColon_spaces]
              rfl
            rw [hcolon, toOption_map, runKind_padded _ hrest,
              kindWritten?_eq _ (Json.maxDepth - 1)]
            cases m.2.item.value? Mismatch (Json.maxDepth - 1) with
            | none => rfl
            | some v =>
                simp only [Option.bind_some, openValue, if_pos htag, hkind]
                cases kindNamed? v <;> rfl
      · have hcolon : (openedMember opened name).run
            (m.1.after.text ++ ':' :: (Document.paddedText m.2 ++ rest)) =
              (innerReader.run (Document.paddedText m.2 ++ rest)).map
                fun read =>
                  ({ opened with members := (name, read.1) :: opened.members }, read.2) := by
          rw [openedMember, if_neg htag]
          dsimp only [Json.Reader.map]
          rw [Json.afterColon_spaces]
        rw [hcolon, toOption_map, innerReader, (Json.reads_document _ _).run_padded hrest]
        cases m.2.item.value? Mismatch (Json.maxDepth - 1) with
        | none => rfl
        | some v =>
            simp only [Option.bind_some, openValue, if_neg htag]
            rfl

/-- The envelope that is read of a document. -/
def envelope? : Document → Option Envelope
  | .object _ members => do
      let opened ← members.foldlM openDocument {}
      return ⟨← opened.kind, .members opened.members.reverse⟩
  | .array _ (tag :: items) => do
      let k ← kindWritten? tag.item
      return ⟨k, .items (← Document.itemValues? Mismatch items (Json.maxDepth - 1))⟩
  | .array _ [] | .literal _ => none

theorem readEnvelope_brace (text : List Char) :
    readEnvelope ('{' :: text) = Json.readMembers openedMember {} text >>= fun (opened, rest) =>
      match opened.kind with
      | some k => .ok (⟨k, .members opened.members.reverse⟩, rest)
      | none => fail (.unsuitable (.missing tagName)) rest 0 := by
  rfl

theorem readEnvelope_bracket (text : List Char) :
    readEnvelope ('[' :: text) =
      match Json.skipSpace text with
      | [] => fail .endInList [] 0
      | ']' :: rest => fail (.unsuitable (.missing tagName)) rest 0
      | _ => do
          let (k, rest) ← runKind text
          let (items, rest) ← Json.moreElements innerReader rest
          return (⟨k, .items items⟩, rest) := by
  rfl

theorem readEnvelope_object (inner : Spaces) (members : List (Padded StringText × Padded Document))
    (rest : List Char) :
    (readEnvelope ((Document.object inner members).text ++ rest)).toOption =
      (envelope? (.object inner members)).map fun envelope => (envelope, rest) := by
  have htext : (Document.object inner members).text ++ rest =
      '{' :: (Json.joinWith [','] (members.map Document.memberText) ++
        (inner.text ++ '}' :: rest)) := by
    simp only [Document.text, Document.memberTexts_eq_map, List.append_assoc, List.cons_append,
      List.nil_append]
  rw [htext, readEnvelope_brace, toOption_bind,
    Json.readMembers_written fun m _ => readsMember_open m, envelope?]
  cases members.foldlM openDocument {} with
  | none => rfl
  | some opened =>
      simp only [Option.map_some, Option.bind_some, Option.bind_eq_bind, Option.pure_def]
      cases opened.kind <;> rfl

theorem readEnvelope_array (inner : Spaces) (items : List (Padded Document)) (rest : List Char) :
    (readEnvelope ((Document.array inner items).text ++ rest)).toOption =
      (envelope? (.array inner items)).map fun envelope => (envelope, rest) := by
  have htext : (Document.array inner items).text ++ rest =
      '[' :: (Json.joinWith [','] (items.map Document.paddedText) ++
        (inner.text ++ ']' :: rest)) := by
    simp only [Document.text, Document.itemTexts_eq_map, List.append_assoc, List.cons_append,
      List.nil_append]
  rw [htext, readEnvelope_bracket]
  cases items with
  | nil =>
      have hclose : Json.skipSpace (inner.text ++ ']' :: rest) = ']' :: rest := by
        rw [Json.skipSpace_spaces]
        rfl
      rw [List.map_nil, Json.joinWith, List.nil_append, hclose]
      rfl
  | cons tag items =>
      have hends := Json.endsNumber_rest (items.map Document.paddedText) inner
        (by simp : ']' ∈ [',', ']', '}']) rest
      obtain ⟨c, tail, hstart, hc⟩ :=
        ((Json.reads_document (μ := Mismatch) tag.item 0).padded (p := tag)).starts
      rw [List.map_cons, Json.joinWith_cons, List.append_assoc, Json.skipSpace_append hstart]
      split
      next h => contradiction
      next h =>
        cases h
        contradiction
      next =>
        rw [toOption_bind, runKind_padded tag hends, envelope?]
        cases kindWritten? tag.item with
        | none => rfl
        | some k =>
            rw [Option.map_some, Option.bind_some, toOption_bind, innerReader,
              Json.moreElements_written (fun p _ => (Json.reads_document p.item _).padded),
              Document.itemValues?_eq_mapM]
            cases items.mapM fun p => p.item.value? Mismatch (Json.maxDepth - 1) <;> rfl

theorem readEnvelope_literal (l : Json.Literal) (rest : List Char) :
    (readEnvelope (l.text ++ rest)).toOption = none := by
  obtain ⟨c, tail, htext, hspace, hc⟩ := l.exists_text_eq_cons
  simp only [List.mem_cons, List.not_mem_nil, or_false, not_or] at hc
  rw [readEnvelope, htext, List.cons_append, Json.skipSpace_of_not_isSpace hspace]
  split
  next h =>
    cases h
    exact absurd rfl hc.2.1
  next h =>
    cases h
    exact absurd rfl hc.1
  next =>
    rw [toOption_bind]
    cases Json.runValue (μ := Mismatch) none (c :: (tail ++ rest)) <;> rfl

theorem readEnvelope_document (d : Document) (before after : Spaces) :
    (readEnvelope (before.text ++ (d.text ++ after.text))).toOption =
      (envelope? d).map fun envelope => (envelope, after.text) := by
  have hskip : readEnvelope (before.text ++ (d.text ++ after.text)) =
      readEnvelope (d.text ++ after.text) := by
    unfold readEnvelope
    rw [Json.skipSpace_spaces, Json.runValue_spaces]
  rw [hskip]
  cases d with
  | literal l => exact readEnvelope_literal l after.text
  | array inner items => exact readEnvelope_array inner items after.text
  | object inner members => exact readEnvelope_object inner members after.text

/-! ## Outermost nodes as values -/

/-- Whether a value names its kind by a string, as the outermost node must. -/
def namesKind : Value → Bool
  | .object members =>
      match members.lookup tagName with
      | some (.string _) => true
      | _ => false
  | .array (.string _ :: _) => true
  | _ => false

variable {Op : Type} [OperatorForm Op]

def outermost? (v : Value) : Option (Expr Op) :=
  if namesKind v then (decode v).toOption else none

/-- The kind that a list of members opens; `kind?` is the one found before. -/
def kindOpened? : List (String × Value) → (kind? : Option Kind) → Option (Option Kind)
  | [], kind? => some kind?
  | (name, v) :: members, kind? =>
      if name = tagName then
        if kind?.isSome then none else (kindNamed? v).bind fun k => kindOpened? members (some k)
      else kindOpened? members kind?

def untagged (members : List (String × Value)) : List (String × Value) :=
  members.filter fun m => m.1 ≠ tagName

theorem foldlM_openValue (members : List (String × Value)) (opened : Opened) :
    members.foldlM openValue opened = (kindOpened? members opened.kind).map fun kind? =>
      { kind := kind?, members := (untagged members).reverse ++ opened.members } := by
  induction members generalizing opened with
  | nil => rfl
  | cons m members ih =>
      rw [List.foldlM_cons, openValue, kindOpened?]
      by_cases htag : m.1 = tagName
      · have hfilter : untagged (m :: members) = untagged members := by
          simp [untagged, htag]
        rw [if_pos htag, if_pos htag, hfilter]
        cases hkind : opened.kind with
        | some k => rfl
        | none =>
            cases kindNamed? m.2 with
            | none => rfl
            | some k =>
                simp only [Option.isSome_none, Bool.false_eq_true, if_false, Option.map_some,
                  Option.bind_some, Option.bind_eq_bind]
                rw [ih]
      · have hfilter : untagged (m :: members) = m :: untagged members := by
          simp [untagged, htag]
        rw [if_neg htag, if_neg htag, hfilter, Option.bind_eq_bind, Option.bind_some, ih]
        simp

theorem kindOpened?_some (members : List (String × Value)) (k : Kind) :
    kindOpened? members (some k) = (kindAmong members (some k)).toOption.map some := by
  induction members with
  | nil => rfl
  | cons m members ih =>
      rw [kindOpened?, kindAmong]
      by_cases htag : m.1 = tagName
      · rw [if_pos htag, if_pos htag]
        rfl
      · rw [if_neg htag, if_neg htag, ih]

theorem lookup_cons_of_eq {m : String × Value} {name : String} (h : m.1 = name)
    (members : List (String × Value)) : (m :: members).lookup name = some m.2 := by
  subst h
  exact List.lookup_cons_self

theorem lookup_cons_of_ne {m : String × Value} {name : String} (h : m.1 ≠ name)
    (members : List (String × Value)) : (m :: members).lookup name = members.lookup name := by
  rw [List.lookup_cons, beq_false_of_ne h.symm]

theorem kindOpened?_none (members : List (String × Value)) :
    ((kindOpened? members none).bind fun kind? => kind?) =
      if namesKind (.object members) then (kindAmong members none).toOption else none := by
  induction members with
  | nil => rfl
  | cons m members ih =>
      rw [kindOpened?, kindAmong]
      by_cases htag : m.1 = tagName
      · rw [if_pos htag, if_pos htag, namesKind, lookup_cons_of_eq htag]
        cases m.2 with
        | string name =>
            simp only [Option.isSome_none, Bool.false_eq_true, if_false, if_true]
            rw [toOption_bind, kindNamed?, kindOf, Kind.ofName]
            cases Kind.ofName? name with
            | none => rfl
            | some k =>
                simp only [Option.bind_some, kindOpened?_some, Except.toOption]
                cases kindAmong members (some k) <;> rfl
        | null | bool | number | array | object => rfl
      · rw [if_neg htag, if_neg htag, ih, namesKind, namesKind, lookup_cons_of_ne htag]

/-- Members that name the kind are not known as fields, and are passed over. -/
theorem decodeMembers_untagged (k : Kind) (seen : List Field) (members : List (String × Value))
    (draft : Draft Op) :
    decodeMembers k seen (untagged members) draft = decodeMembers k seen members draft := by
  induction members generalizing seen draft with
  | nil => rfl
  | cons m members ih =>
      by_cases htag : m.1 = tagName
      · have hfilter : untagged (m :: members) = untagged members := by
          simp [untagged, htag]
        rw [hfilter, ih, decodeMembers, htag, field?_tagName]
      · have hfilter : untagged (m :: members) = m :: untagged members := by
          simp [untagged, htag]
        rw [hfilter, decodeMembers, decodeMembers]
        simp only [ih]

theorem decode_object (members : List (String × Value)) :
    (decode (.object members) : Except Mismatch (Expr Op)).toOption =
      (kindAmong members none).toOption.bind fun k =>
        ((decodeMembers k [] members {}).toOption.bind fun draft =>
          (draft.assemble k).toOption) := by
  rw [decode, toOption_bind]
  simp only [toOption_bind]

theorem decode_array (tag : Value) (items : List Value) :
    (decode (.array (tag :: items)) : Except Mismatch (Expr Op)).toOption =
      (kindOf tag).toOption.bind fun k =>
        ((decodeItems k k.fields items {}).toOption.bind fun draft =>
          (draft.assembleItems k items.length).toOption) := by
  rw [decode, toOption_bind]
  simp only [toOption_bind]

theorem decode_envelope?_array (inner : Spaces) (items : List (Padded Document)) :
    ((envelope? (.array inner items)).bind fun envelope =>
      (envelope.decode : Except Mismatch (Expr Op)).toOption) =
        ((Document.array inner items).value? Mismatch Json.maxDepth).bind outermost? := by
  rw [show Json.maxDepth = (Json.maxDepth - 1) + 1 from rfl, Document.value?]
  cases items with
  | nil => rfl
  | cons tag items =>
      rw [envelope?, Document.itemValues?, kindWritten?_eq _ (Json.maxDepth - 1)]
      cases tag.item.value? Mismatch (Json.maxDepth - 1) with
      | none => rfl
      | some v =>
          simp only [Option.bind_some, Option.bind_eq_bind, Option.pure_def]
          cases Document.itemValues? Mismatch items (Json.maxDepth - 1) with
          | none => cases kindNamed? v <;> rfl
          | some values =>
              simp only [Option.bind_some, Option.map_some, outermost?]
              cases v with
              | string name =>
                  rw [decode_array, kindOf, kindNamed?, Kind.ofName]
                  cases Kind.ofName? name with
                  | none => rfl
                  | some k => exact toOption_bind _ _
              | null | bool | number | array | object => rfl

theorem decode_envelope?_object (inner : Spaces)
    (members : List (Padded StringText × Padded Document)) :
    ((envelope? (.object inner members)).bind fun envelope =>
      (envelope.decode : Except Mismatch (Expr Op)).toOption) =
        ((Document.object inner members).value? Mismatch Json.maxDepth).bind outermost? := by
  rw [show Json.maxDepth = (Json.maxDepth - 1) + 1 from rfl, Document.value?, envelope?,
    Document.memberValues?_eq_mapM]
  unfold openDocument
  rw [Json.foldlM_bind]
  cases members.mapM (Document.memberValue? Mismatch (Json.maxDepth - 1)) with
  | none => rfl
  | some values =>
      have hkind := kindOpened?_none values
      simp only [Option.bind_some, Option.map_some, Option.bind_eq_bind, Option.pure_def,
        foldlM_openValue, outermost?, List.append_nil]
      by_cases hnames : namesKind (.object values) = true
      · rw [if_pos hnames] at hkind ⊢
        rw [decode_object, ← hkind]
        cases kindOpened? values none with
        | none => rfl
        | some kind? =>
            cases kind? with
            | none => rfl
            | some k =>
                simp only [Option.bind_some, Option.map_some, Envelope.decode,
                  List.reverse_reverse, decodeMembers_untagged]
                exact toOption_bind _ _
      · rw [if_neg hnames] at hkind ⊢
        cases hopened : kindOpened? values none with
        | none => rfl
        | some kind? =>
            rw [hopened] at hkind
            cases kind? with
            | none => rfl
            | some k => cases hkind

/-- Reading the envelope and decoding it is reading a value and decoding that. -/
theorem decode_envelope? (d : Document) :
    ((envelope? d).bind fun envelope => (envelope.decode : Except Mismatch (Expr Op)).toOption) =
      (d.value? Mismatch Json.maxDepth).bind outermost? := by
  cases d with
  | literal l =>
      rw [envelope?, Document.value?]
      cases hvalue : l.value? Mismatch with
      | none => rfl
      | some v =>
          have hdepth := Json.Literal.depth_value? hvalue
          cases v with
          | null | bool | number | string => rfl
          | array items => cases hdepth
          | object members => cases hdepth
  | array inner items => exact decode_envelope?_array inner items
  | object inner members => exact decode_envelope?_object inner members

/-- A text with space around it reads as its value decodes. -/
theorem toOption_ofJson (d : Document) (before after : Spaces) :
    (Expr.ofJson (String.ofList (before.text ++ (d.text ++ after.text))) :
      Except Error (Expr Op)).toOption = (d.value? Mismatch Json.maxDepth).bind outermost? := by
  have hend : checkEnd after.text = .ok () := by
    have hskip := Json.skipSpace_spaces after []
    rw [List.append_nil] at hskip
    rw [checkEnd, hskip]
    rfl
  unfold Expr.ofJson
  dsimp only
  rw [String.toList_ofList, toOption_bind, toOption_mapError, readEnvelope_document,
    ← decode_envelope?]
  cases envelope? d with
  | none => rfl
  | some envelope =>
      simp only [Option.map_some, Option.bind_some]
      rw [toOption_bind, toOption_mapError, hend]
      cases (envelope.decode : Except Mismatch (Expr Op)) <;> rfl

end Interchange
end FilterLang
