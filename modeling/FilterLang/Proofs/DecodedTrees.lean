import FilterLang.Interchange.Decode
import FilterLang.Proofs.EncodedTrees
import FilterLang.Proofs.JsonValues
import FilterLang.Proofs.ReplacedLiterals
import FilterLang.Proofs.Stamps

/-!
# Decoding what was encoded, written and reread

Between encoding and decoding a value is written as a text and read again, which
may change its numbers, and only these.  So decoding is proved for the reread
value: the tree that it gives is the encoded one with each number replaced by
what its own text reads as.

All members are read before any of them is decoded, but as far as success goes
the two may as well alternate.  With that, each member sets its field of the
draft on its own, and an operand that is left out sets none.
-/

namespace FilterLang

open Json (Value rereadMembers? rereadItems? toOption_map toOption_bind)

namespace Interchange

variable {Op : Type} [OperatorForm Op]

/-- What a number literal becomes on its way through the text of its value. -/
def numberReread? (value : Binary64) : Option Binary64 :=
  ((numberValue value).reread? Mismatch).bind fun v => (readNumber v).toOption

/-- The tree with its numbers as they come back and its times as they are shown. -/
def reread? (e : Expr Op) : Option (Expr Op) :=
  e.withLiterals? (fun _ value => numberReread? value) Calendar.Moment.shown

/-- The value decodes, once it has been reread, as the tree with reread literals. -/
def DecodesAs (v : Value) (e : Expr Op) : Prop :=
  (∃ members, v = .object members) ∧
    ((v.reread? Mismatch).bind fun v => (decode v : Except Mismatch (Expr Op)).toOption) = reread? e

/-! ## Members one by one -/

def subtrees (v : Value) : Subtrees Op where
  operand := fun _ => if isNull v then .ok none else (decode v).map some
  children := fun _ => decodeChildren v

def rereadFill? (k : Kind) (f : Field) (v : Value) (draft : Draft Op) : Option (Draft Op) :=
  (v.reread? Mismatch).bind fun v => (draft.fill k f v (subtrees v)).toOption

def rereadDecode? (k : Kind) (seen : List Field) (members : List (String × Value))
    (draft : Draft Op) : Option (Draft Op) :=
  (rereadMembers? Mismatch members).bind fun members =>
    (decodeMembers k seen members draft).toOption

theorem rereadDecode?_nil (k : Kind) (seen : List Field) (draft : Draft Op) :
    rereadDecode? k seen [] draft = some draft := by
  simp only [rereadDecode?, rereadMembers?, Option.bind_some, decodeMembers]
  rfl

/-- Rereading all members first is as good as rereading each when it is decoded. -/
theorem rereadDecode?_cons {k : Kind} {f : Field} {seen : List Field}
    (hfield : k.field? f.key = some f) (hseen : f ∉ seen) (v : Value)
    (members : List (String × Value)) (draft : Draft Op) :
    rereadDecode? k seen ((f.key, v) :: members) draft =
      (rereadFill? k f v draft).bind fun draft => rereadDecode? k (f :: seen) members draft := by
  unfold rereadDecode? rereadFill?
  rw [rereadMembers?]
  cases hv : v.reread? Mismatch with
  | none => rfl
  | some v' =>
      cases hmembers : rereadMembers? Mismatch members with
      | none => simp
      | some members' =>
          have hdecode : decodeMembers k seen ((f.key, v') :: members') draft =
              draft.fill k f v' (subtrees v') >>= fun draft =>
                decodeMembers k (f :: seen) members' draft := by
            rw [decodeMembers, hfield]
            dsimp only
            rw [if_neg hseen]
            rfl
          simp only [Option.bind_eq_bind, Option.bind_some, Option.pure_def]
          rw [hdecode, toOption_bind]

theorem rereadFill?_id (k : Kind) (id : String) (draft : Draft Op) :
    rereadFill? k .id (.string id) draft = some { draft with id := some id } :=
  rfl

theorem rereadFill?_op [LawfulOperatorForm Op] (k : Kind) {op : Op} {text : String}
    (h : OperatorForm.write op = .ok text) (draft : Draft Op) :
    rereadFill? k .op (.string text) draft = some { draft with op := some op } := by
  have hread := LawfulOperatorForm.read_write h
  simp only [rereadFill?, Value.reread?, Option.bind_some, Draft.fill, readText, bind,
    Except.bind, hread]
  rfl

/-- The draft with one operand set, or as it is if there is none. -/
def Draft.withOperand (f : Field) (operand : Option (Expr Op)) (draft : Draft Op) : Draft Op :=
  match operand with
  | none => draft
  | some e =>
      match f with
      | .lhs => { draft with lhs := some (some e) }
      | .rhs => { draft with rhs := some (some e) }
      | .rhs2 => { draft with rhs2 := some (some e) }
      | .operand => { draft with operand := some (some e) }
      | _ => draft

theorem rereadFill?_operand {k : Kind} {f : Field} (hf : f ∈ [.lhs, .rhs, .rhs2, .operand])
    {v : Value} {e : Expr Op} (h : DecodesAs v e) (draft : Draft Op) :
    rereadFill? k f v draft = (reread? e).map fun e => draft.withOperand f (some e) := by
  obtain ⟨⟨members, rfl⟩, hdecode⟩ := h
  rw [← hdecode]
  unfold rereadFill?
  rw [Value.reread?]
  cases rereadMembers? Mismatch members with
  | none => rfl
  | some members' =>
      simp only [Option.map_some, Option.bind_some]
      have hoperand : (subtrees (.object members') : Subtrees Op).operand () =
          (decode (.object members')).map some := rfl
      simp only [List.mem_cons, List.not_mem_nil, or_false] at hf
      rcases hf with rfl | rfl | rfl | rfl
      all_goals
        rw [Draft.fill, toOption_bind, hoperand, toOption_map]
        cases (decode (.object members') : Except Mismatch (Expr Op)) <;> rfl

def rereadOperand? (operand : Option (Expr Op)) : Option (Option (Expr Op)) :=
  Expr.operandWithLiterals? (fun _ value => numberReread? value) Calendar.Moment.shown operand

/-- An operand, if there is one, in front of other members. -/
theorem rereadDecode?_operand {k : Kind} {f : Field} (hfield : k.field? f.key = some f)
    (hf : f ∈ [.lhs, .rhs, .rhs2, .operand]) {seen : List Field} (hseen : f ∉ seen)
    {operand : Option (Expr Op)} {members : List (String × Value)}
    (hmembers : encodeOperand f operand = .ok members)
    (h : ∀ e v, operand = some e → encode e = .ok v → DecodesAs v e)
    (rest : List (String × Value)) (draft : Draft Op) :
    ∃ seen', (∀ g ∈ seen', g = f ∨ g ∈ seen) ∧
      rereadDecode? k seen (members ++ rest) draft =
        (rereadOperand? operand).bind fun operand =>
          rereadDecode? k seen' rest (draft.withOperand f operand) := by
  cases operand with
  | none =>
      cases hmembers
      exact ⟨seen, fun g hg => Or.inr hg, rfl⟩
  | some e =>
      rw [encodeOperand] at hmembers
      obtain ⟨v, hv, heq⟩ := bind_eq_ok.1 hmembers
      cases heq
      refine ⟨f :: seen, fun g hg => List.mem_cons.1 hg, ?_⟩
      rw [List.singleton_append, rereadDecode?_cons hfield hseen,
        rereadFill?_operand hf (h e v rfl hv), rereadOperand?, Expr.operandWithLiterals?]
      unfold reread?
      cases e.withLiterals? (fun _ value => numberReread? value) Calendar.Moment.shown <;> rfl

/-! ## Children -/

def rereadChildren? (children : List (Option (Expr Op))) : Option (List (Option (Expr Op))) :=
  Expr.childrenWithLiterals? (fun _ value => numberReread? value) Calendar.Moment.shown children

theorem toOption_operand (v : Value) :
    ((subtrees v : Subtrees Op).operand ()).toOption =
      if isNull v then some none else (decode v).toOption.map some := by
  change (if isNull v then .ok none else (decode v).map some : Except Mismatch _).toOption = _
  by_cases hnull : isNull v = true
  · rw [if_pos hnull, if_pos hnull]
    rfl
  · rw [if_neg hnull, if_neg hnull, toOption_map]

theorem decodeChildList_cons (v : Value) (values : List Value) :
    (decodeChildList (v :: values) : Except Mismatch (List (Option (Expr Op)))) =
      (subtrees v).operand () >>= fun child =>
        decodeChildList values >>= fun children => .ok (child :: children) := by
  rw [decodeChildList, subtrees]
  dsimp only
  by_cases hnull : isNull v = true
  · rw [if_pos hnull, if_pos hnull]
    rfl
  · rw [if_neg hnull, if_neg hnull]
    rfl

theorem toOption_decodeChildList_cons (v : Value) (values : List Value) :
    (decodeChildList (v :: values) : Except Mismatch (List (Option (Expr Op)))).toOption =
      (if isNull v then some none else (decode v).toOption.map some).bind fun child =>
        (decodeChildList values).toOption.bind fun children => some (child :: children) := by
  rw [decodeChildList_cons, toOption_bind, toOption_operand]
  simp only [toOption_bind]
  rfl

theorem rereadItems?_children {children : List (Option (Expr Op))} {values : List Value}
    (hvalues : encodeChildren children = .ok values)
    (h : ∀ child v, some child ∈ children → encode child = .ok v → DecodesAs v child) :
    ((rereadItems? Mismatch values).bind fun values =>
      (decodeChildList values : Except Mismatch (List (Option (Expr Op)))).toOption) =
        rereadChildren? children := by
  induction children generalizing values with
  | nil =>
      cases hvalues
      rfl
  | cons operand children ih =>
      have hrest : ∀ child v, some child ∈ children → encode child = .ok v →
          DecodesAs v child := by
        intro child v hchild
        exact h child v (List.mem_cons_of_mem _ hchild)
      rw [rereadChildren?, Expr.childrenWithLiterals?, ← rereadChildren?]
      cases operand with
      | none =>
          rw [encodeChildren] at hvalues
          obtain ⟨values', hvalues', heq⟩ := bind_eq_ok.1 hvalues
          cases heq
          rw [← ih hvalues' hrest, rereadItems?, Value.reread?, Expr.operandWithLiterals?]
          cases rereadItems? Mismatch values' with
          | none => rfl
          | some values'' => exact toOption_decodeChildList_cons .null values''
      | some child =>
          rw [encodeChildren] at hvalues
          obtain ⟨v, hv, hvalues⟩ := bind_eq_ok.1 hvalues
          obtain ⟨values', hvalues', heq⟩ := bind_eq_ok.1 hvalues
          cases heq
          obtain ⟨⟨members, rfl⟩, hdecode⟩ := h child v (List.mem_cons_self ..) hv
          rw [reread?] at hdecode
          rw [← ih hvalues' hrest, rereadItems?, Expr.operandWithLiterals?, ← hdecode,
            Value.reread?]
          cases rereadMembers? Mismatch members with
          | none => rfl
          | some members' =>
              cases rereadItems? Mismatch values' with
              | none => simp
              | some values'' =>
                  exact toOption_decodeChildList_cons (.object members') values''

theorem rereadFill?_children {children : List (Option (Expr Op))} {values : List Value}
    (hvalues : encodeChildren children = .ok values)
    (h : ∀ child v, some child ∈ children → encode child = .ok v → DecodesAs v child)
    (k : Kind) (draft : Draft Op) :
    rereadFill? k .children (.array values) draft =
      (rereadChildren? children).map fun children => { draft with children := some children } := by
  rw [← rereadItems?_children hvalues h, rereadFill?, Value.reread?]
  cases rereadItems? Mismatch values with
  | none => rfl
  | some values' =>
      simp only [Option.map_some, Option.bind_some]
      have hchildren : (subtrees (.array values') : Subtrees Op).children () =
          decodeChildList values' := rfl
      rw [Draft.fill, toOption_bind, hchildren]
      cases (decodeChildList values' : Except Mismatch (List (Option (Expr Op)))) <;> rfl

/-! ## Nodes -/

def kind : Expr Op → Kind
  | .group .. => .group
  | .binary .. => .binary
  | .unary .. => .unary
  | .ternary .. => .ternary
  | .reference .. => .reference
  | .number .. => .number
  | .boolean .. => .boolean
  | .string .. => .string
  | .time .. => .time

/-- The members of an encoded node behind the one that names its kind, and the
node that they give once they have been reread. -/
structure NodeMembers (e : Expr Op) (members : List (String × Value)) : Prop where
  no_tag : ∀ m ∈ members, m.1 ≠ tagName
  node : ((rereadDecode? (kind e) [] members {}).bind fun draft =>
    (draft.assemble (kind e) : Except Mismatch (Expr Op)).toOption) = reread? e

theorem ofName?_name (k : Kind) : Kind.ofName? k.name = some k := by
  cases k <;> rfl

theorem field?_tagName (k : Kind) : k.field? tagName = none := by
  cases k <;> rfl

theorem kindAmong_of_no_tag {members : List (String × Value)} (h : ∀ m ∈ members, m.1 ≠ tagName)
    (k : Kind) : kindAmong members (some k) = .ok k := by
  induction members with
  | nil => rfl
  | cons member members ih =>
      rw [List.forall_mem_cons] at h
      rw [kindAmong, if_neg h.1]
      exact ih h.2

theorem names_rereadMembers? {μ : Type} {members members' : List (String × Value)}
    (h : rereadMembers? μ members = some members') :
    members'.map (fun m => m.1) = members.map fun m => m.1 := by
  induction members generalizing members' with
  | nil =>
      cases h
      rfl
  | cons member members ih =>
      obtain ⟨name, v⟩ := member
      simp only [rereadMembers?, Option.bind_eq_bind, Option.bind_eq_some_iff] at h
      obtain ⟨v', -, rest, hrest, heq⟩ := h
      cases heq
      rw [List.map_cons, List.map_cons, ih hrest]

theorem no_tag_rereadMembers? {μ : Type} {members members' : List (String × Value)}
    (h : rereadMembers? μ members = some members') (hno : ∀ m ∈ members, m.1 ≠ tagName) :
    ∀ m ∈ members', m.1 ≠ tagName := by
  intro m hm
  have hname : m.1 ∈ members.map fun m => m.1 := by
    rw [← names_rereadMembers? h]
    exact List.mem_map_of_mem hm
  obtain ⟨m', hm', heq⟩ := List.mem_map.1 hname
  rw [← heq]
  exact hno m' hm'

/-- An inner node finds its kind among its members. -/
theorem NodeMembers.decodesAs {e : Expr Op} {members : List (String × Value)}
    (h : NodeMembers e members) :
    DecodesAs (.object ((tagName, .string (kind e).name) :: members)) e := by
  refine ⟨⟨_, rfl⟩, ?_⟩
  rw [← h.node, rereadDecode?, Value.reread?, rereadMembers?]
  cases hmembers : rereadMembers? Mismatch members with
  | none => rfl
  | some members' =>
      have hkind : kindAmong ((tagName, .string (kind e).name) :: members') none =
          .ok (kind e) := by
        have hof : kindOf (.string (kind e).name) = .ok (kind e) := by
          rw [kindOf, Kind.ofName, ofName?_name]
        rw [kindAmong, if_pos rfl, hof]
        exact kindAmong_of_no_tag (no_tag_rereadMembers? hmembers h.no_tag) _
      have hdecode : decodeMembers (kind e) []
          ((tagName, .string (kind e).name) :: members') ({} : Draft Op) =
            decodeMembers (kind e) [] members' {} := by
        rw [decodeMembers, field?_tagName]
      simp only [Value.reread?, Option.bind_eq_bind, Option.bind_some, Option.pure_def,
        Option.map_some]
      rw [decode, hkind]
      change (decodeMembers _ _ _ _ >>= _).toOption = _
      rw [hdecode, toOption_bind]

/-! ## Members of each kind -/

theorem key_ne_tagName (f : Field) : f.key ≠ tagName := by
  cases f <;> decide

theorem key_of_mem_encodeOperand {f : Field} {operand : Option (Expr Op)}
    {members : List (String × Value)} (h : encodeOperand f operand = .ok members) :
    ∀ m ∈ members, m.1 ≠ tagName := by
  cases operand with
  | none =>
      cases h
      simp
  | some e =>
      rw [encodeOperand] at h
      obtain ⟨v, -, heq⟩ := bind_eq_ok.1 h
      cases heq
      simpa using key_ne_tagName f

theorem nodeMembers_group {id : String} {children : List (Option (Expr Op))}
    {values : List Value} (hvalues : encodeChildren children = .ok values)
    (h : ∀ child v, some child ∈ children → encode child = .ok v → DecodesAs v child) :
    NodeMembers (.group id children)
      [(Field.id.key, .string id), (Field.children.key, .array values)] where
  no_tag := by simp [key_ne_tagName]
  node := by
    rw [kind, rereadDecode?_cons rfl (by simp), rereadFill?_id, Option.bind_some,
      rereadDecode?_cons rfl (by simp), rereadFill?_children hvalues h, reread?,
      Expr.withLiterals?, ← rereadChildren?]
    cases rereadChildren? children with
    | none => rfl
    | some children' =>
        simp only [Option.map_some, Option.bind_some, rereadDecode?_nil]
        rfl

/-- A node with one field besides its identity. -/
theorem nodeMembers_literal {e : Expr Op} {id : String} {f : Field} {v : Value}
    (hfield : (kind e).field? f.key = some f) (hf : f ≠ .id)
    (h : ((rereadFill? (kind e) f v { id := some id }).bind fun draft =>
      (draft.assemble (kind e) : Except Mismatch (Expr Op)).toOption) = reread? e) :
    NodeMembers e [(Field.id.key, .string id), (f.key, v)] where
  no_tag := by simp [key_ne_tagName]
  node := by
    have hid : (kind e).field? Field.id.key = some .id := by
      cases e <;> rfl
    rw [rereadDecode?_cons hid (by simp), rereadFill?_id, Option.bind_some,
      rereadDecode?_cons hfield (by simp [hf])]
    rw [← h]
    cases (rereadFill? (kind e) f v { id := some id } : Option (Draft Op)) with
    | none => rfl
    | some draft => simp only [Option.bind_some, rereadDecode?_nil]

theorem nodeMembers_number (id : String) (value : Binary64) :
    NodeMembers (.number id value : Expr Op)
      [(Field.id.key, .string id), (Field.value.key, numberValue value)] := by
  apply nodeMembers_literal rfl (by simp)
  rw [reread?, Expr.withLiterals?, rereadFill?, kind, numberReread?]
  cases (numberValue value).reread? Mismatch with
  | none => rfl
  | some v =>
      simp only [Option.bind_some, Draft.fill]
      cases readNumber v <;> rfl

theorem nodeMembers_time (id : String) {value : Calendar.Moment} (h : value.Exchangeable) :
    NodeMembers (.time id value : Expr Op)
      [(Field.id.key, .string id), (Field.value.key, .string (String.ofList value.stamp))] := by
  have hread : readTime (.string (String.ofList value.stamp)) = .ok value.shown := by
    rw [readTime, String.toList_ofList, Calendar.Moment.ofStamp_stamp h]
    rfl
  apply nodeMembers_literal rfl (by simp)
  simp only [rereadFill?, Value.reread?, Option.bind_some, kind, Draft.fill, hread]
  rfl

variable [LawfulOperatorForm Op]

/-- Nodes with an operator all begin alike. -/
theorem rereadDecode?_operator {k : Kind} (hid : k.field? Field.id.key = some .id)
    (hfield : k.field? Field.op.key = some .op) {op : Op} {text : String}
    (hop : OperatorForm.write op = .ok text) (id : String) (rest : List (String × Value)) :
    rereadDecode? k [] ((Field.id.key, .string id) :: (Field.op.key, .string text) :: rest) {} =
      rereadDecode? k [.op, .id] rest { id := some id, op := some op } := by
  rw [rereadDecode?_cons hid (by simp), rereadFill?_id, Option.bind_some,
    rereadDecode?_cons hfield (by simp), rereadFill?_op k hop, Option.bind_some]

theorem nodeMembers_binary {id : String} {op : Op} {lhs rhs : Option (Expr Op)} {text : String}
    {ls rs : List (String × Value)} (hop : OperatorForm.write op = .ok text)
    (hls : encodeOperand .lhs lhs = .ok ls) (hrs : encodeOperand .rhs rhs = .ok rs)
    (hl : ∀ e v, lhs = some e → encode e = .ok v → DecodesAs v e)
    (hr : ∀ e v, rhs = some e → encode e = .ok v → DecodesAs v e) :
    NodeMembers (.binary id op lhs rhs)
      ((Field.id.key, .string id) :: (Field.op.key, .string text) :: (ls ++ rs)) where
  no_tag := by
    simp only [List.forall_mem_cons, List.forall_mem_append]
    exact ⟨key_ne_tagName _, key_ne_tagName _, key_of_mem_encodeOperand hls,
      key_of_mem_encodeOperand hrs⟩
  node := by
    rw [kind, rereadDecode?_operator rfl rfl hop]
    obtain ⟨seen, hseen, hlhs⟩ := rereadDecode?_operand (k := .binary) rfl (by simp)
      (by simp : Field.lhs ∉ [Field.op, Field.id]) hls hl rs { id := some id, op := some op }
    have hnew : Field.rhs ∉ seen := by
      intro hmem
      simpa using hseen _ hmem
    rw [hlhs, reread?, Expr.withLiterals?]
    change ((rereadOperand? lhs).bind _).bind _ = (rereadOperand? lhs).bind fun lhs =>
      (rereadOperand? rhs).bind fun rhs => some (Expr.binary id op lhs rhs)
    cases rereadOperand? lhs with
    | none => rfl
    | some lhs' =>
        obtain ⟨seen', -, hrhs⟩ := rereadDecode?_operand (k := .binary) rfl (by simp) hnew hrs hr
          [] (Draft.withOperand .lhs lhs' { id := some id, op := some op })
        rw [List.append_nil] at hrhs
        rw [Option.bind_some, Option.bind_some, hrhs]
        cases rereadOperand? rhs with
        | none => rfl
        | some rhs' =>
            simp only [Option.bind_some, rereadDecode?_nil]
            cases lhs' <;> cases rhs' <;> rfl

theorem nodeMembers_unary {id : String} {op : Op} {operand : Option (Expr Op)} {text : String}
    {es : List (String × Value)} (hop : OperatorForm.write op = .ok text)
    (hes : encodeOperand .operand operand = .ok es)
    (h : ∀ e v, operand = some e → encode e = .ok v → DecodesAs v e) :
    NodeMembers (.unary id op operand)
      ((Field.id.key, .string id) :: (Field.op.key, .string text) :: es) where
  no_tag := by
    simp only [List.forall_mem_cons]
    exact ⟨key_ne_tagName _, key_ne_tagName _, key_of_mem_encodeOperand hes⟩
  node := by
    rw [kind, rereadDecode?_operator rfl rfl hop]
    obtain ⟨seen, -, hoperand⟩ := rereadDecode?_operand (k := .unary) rfl (by simp)
      (by simp : Field.operand ∉ [Field.op, Field.id]) hes h [] { id := some id, op := some op }
    rw [List.append_nil] at hoperand
    rw [hoperand, reread?, Expr.withLiterals?]
    change ((rereadOperand? operand).bind _).bind _ = (rereadOperand? operand).bind fun operand =>
      some (Expr.unary id op operand)
    cases rereadOperand? operand with
    | none => rfl
    | some operand' =>
        simp only [Option.bind_some, rereadDecode?_nil]
        cases operand' <;> rfl

theorem nodeMembers_ternary {id : String} {op : Op} {lhs rhs rhs2 : Option (Expr Op)}
    {text : String} {ls rs ts : List (String × Value)} (hop : OperatorForm.write op = .ok text)
    (hls : encodeOperand .lhs lhs = .ok ls) (hrs : encodeOperand .rhs rhs = .ok rs)
    (hts : encodeOperand .rhs2 rhs2 = .ok ts)
    (hl : ∀ e v, lhs = some e → encode e = .ok v → DecodesAs v e)
    (hr : ∀ e v, rhs = some e → encode e = .ok v → DecodesAs v e)
    (ht : ∀ e v, rhs2 = some e → encode e = .ok v → DecodesAs v e) :
    NodeMembers (.ternary id op lhs rhs rhs2)
      ((Field.id.key, .string id) :: (Field.op.key, .string text) :: (ls ++ (rs ++ ts))) where
  no_tag := by
    simp only [List.forall_mem_cons, List.forall_mem_append]
    exact ⟨key_ne_tagName _, key_ne_tagName _, key_of_mem_encodeOperand hls,
      key_of_mem_encodeOperand hrs, key_of_mem_encodeOperand hts⟩
  node := by
    rw [kind, rereadDecode?_operator rfl rfl hop]
    obtain ⟨seen, hseen, hlhs⟩ := rereadDecode?_operand (k := .ternary) rfl (by simp)
      (by simp : Field.lhs ∉ [Field.op, Field.id]) hls hl (rs ++ ts)
      { id := some id, op := some op }
    have hnew : Field.rhs ∉ seen := by
      intro hmem
      simpa using hseen _ hmem
    have hnew2 : Field.rhs2 ∉ seen := by
      intro hmem
      simpa using hseen _ hmem
    rw [hlhs, reread?, Expr.withLiterals?]
    change ((rereadOperand? lhs).bind _).bind _ = (rereadOperand? lhs).bind fun lhs =>
      (rereadOperand? rhs).bind fun rhs => (rereadOperand? rhs2).bind fun rhs2 =>
        some (Expr.ternary id op lhs rhs rhs2)
    cases rereadOperand? lhs with
    | none => rfl
    | some lhs' =>
        obtain ⟨seen', hseen', hrhs⟩ := rereadDecode?_operand (k := .ternary) rfl (by simp) hnew
          hrs hr ts (Draft.withOperand .lhs lhs' { id := some id, op := some op })
        have hnew2' : Field.rhs2 ∉ seen' := by
          intro hmem
          simpa [hnew2] using hseen' _ hmem
        rw [Option.bind_some, Option.bind_some, hrhs]
        cases rereadOperand? rhs with
        | none => rfl
        | some rhs' =>
            obtain ⟨seen'', -, hrhs2⟩ := rereadDecode?_operand (k := .ternary) rfl (by simp)
              hnew2' hts ht [] (Draft.withOperand .rhs rhs'
                (Draft.withOperand .lhs lhs' { id := some id, op := some op }))
            rw [List.append_nil] at hrhs2
            rw [Option.bind_some, Option.bind_some, hrhs2]
            cases rereadOperand? rhs2 with
            | none => rfl
            | some rhs2' =>
                simp only [Option.bind_some, rereadDecode?_nil]
                cases lhs' <;> cases rhs' <;> cases rhs2' <;> rfl

/-- Every encoded node has its kind first and then its members. -/
theorem exists_nodeMembers {e : Expr Op} {v : Value} (hv : encode e = .ok v)
    (hmoment : ∀ m, e.moment? = some m → m.Exchangeable)
    (h : ∀ operand ∈ e.operands, ∀ v, encode operand = .ok v → DecodesAs v operand) :
    ∃ members, v = .object ((tagName, .string (kind e).name) :: members) ∧
      NodeMembers e members := by
  cases e with
  | group id children =>
      rw [encode] at hv
      obtain ⟨values, hvalues, heq⟩ := bind_eq_ok.1 hv
      cases heq
      refine ⟨_, rfl, nodeMembers_group hvalues ?_⟩
      intro child v hchild
      exact h child (List.mem_filterMap.2 ⟨some child, hchild, rfl⟩) v
  | binary id op lhs rhs =>
      simp only [encode, bind_eq_ok, operatorMember] at hv
      obtain ⟨ops, ⟨text, hop, hops⟩, ls, hls, rs, hrs, heq⟩ := hv
      cases hops
      cases heq
      refine ⟨_, by simp [header, kind], nodeMembers_binary hop hls hrs ?_ ?_⟩
      · rintro e v rfl
        exact h e (by simp [Expr.operands]) v
      · rintro e v rfl
        exact h e (by simp [Expr.operands]) v
  | unary id op operand =>
      simp only [encode, bind_eq_ok, operatorMember] at hv
      obtain ⟨ops, ⟨text, hop, hops⟩, es, hes, heq⟩ := hv
      cases hops
      cases heq
      refine ⟨_, rfl, nodeMembers_unary hop hes ?_⟩
      rintro e v rfl
      exact h e (by simp [Expr.operands]) v
  | ternary id op lhs rhs rhs2 =>
      simp only [encode, bind_eq_ok, operatorMember] at hv
      obtain ⟨ops, ⟨text, hop, hops⟩, ls, hls, rs, hrs, ts, hts, heq⟩ := hv
      cases hops
      cases heq
      refine ⟨_, by simp [header, kind], nodeMembers_ternary hop hls hrs hts ?_ ?_ ?_⟩
      · rintro e v rfl
        exact h e (by simp [Expr.operands]) v
      · rintro e v rfl
        exact h e (by simp [Expr.operands]) v
      · rintro e v rfl
        exact h e (by simp [Expr.operands]) v
  | reference id name =>
      cases hv
      exact ⟨_, rfl, nodeMembers_literal rfl (by simp) rfl⟩
  | number id value =>
      cases hv
      exact ⟨_, rfl, nodeMembers_number id value⟩
  | boolean id value =>
      cases hv
      exact ⟨_, rfl, nodeMembers_literal rfl (by simp) rfl⟩
  | string id value =>
      cases hv
      exact ⟨_, rfl, nodeMembers_literal rfl (by simp) rfl⟩
  | time id value =>
      cases hv
      exact ⟨_, rfl, nodeMembers_time id (hmoment value rfl)⟩

/-! ## Trees -/

/-- A tree whose moments have exact stamps is encoded with the members that its
root decodes from. -/
theorem nodeMembers_of_encode {e : Expr Op} {v : Value} (hv : encode e = .ok v)
    (hmoments : ∀ m ∈ e.moments, m.Exchangeable) :
    ∃ members, v = .object ((tagName, .string (kind e).name) :: members) ∧
      NodeMembers e members := by
  induction e using Expr.operandInduction generalizing v with
  | h e ih =>
      apply exists_nodeMembers hv
      · intro m hm
        exact hmoments m (Expr.mem_filterMap_nodes.2 (Or.inl hm))
      · intro operand hoperand v hv
        have hbelow : ∀ m ∈ operand.moments, m.Exchangeable := by
          intro m hm
          exact hmoments m (Expr.mem_filterMap_nodes.2 (Or.inr ⟨operand, hoperand, hm⟩))
        obtain ⟨members, rfl, hmembers⟩ := ih operand hoperand hv hbelow
        exact hmembers.decodesAs

end Interchange
end FilterLang
