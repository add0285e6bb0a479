import FilterLang.Proofs.InterchangeableValues
import FilterLang.Proofs.JsonRoundTrip

/-!
# One tree in many presentations

Two texts present the same tree if they differ, at any depth, only in the space between
their parts, in the order of members, in members that their node does not know, and in
whether defaults are written out.  Both or neither of them are read, and as the same tree.

What is written besides must be readable where it stands.  Of the defaults only the empty
list of children has brackets, and where no more brackets may open it has to be left out.

The texts are compared level by level, for as many levels as a reader has left; the
induction is on these.
-/

namespace FilterLang
namespace Interchange

open Json (Value Document Padded StringText Spaces)

abbrev Member := Padded StringText × Padded Document

/-- The names of members, as far as they can be read. -/
def memberNames (members : List Member) : List String :=
  members.filterMap fun m => m.1.item.value? Mismatch

/-- A member that a node may as well do without: it is readable where it stands, and the
others name a kind that either does not know it or has its value for a default. -/
def MayBeOmitted (levels : Nat) (others : List Member) (m : Member) : Prop :=
  ∃ t ∈ others, ∃ tag k member,
    Document.memberValue? Mismatch levels t = some (tagName, tag) ∧ kindOf tag = .ok k ∧
      Document.memberValue? Mismatch levels m = some member ∧ Dispensable k member

/-- The members, in any order, are those in common with another presentation and
some that may be omitted beside them.  No two have the same name. -/
structure Completes (levels : Nat) (members common optional : List Member) : Prop where
  perm : members.Perm (common ++ optional)
  distinct : (memberNames members).Nodup
  omissible : ∀ m ∈ optional, MayBeOmitted levels common m

/-- The items are those in common with another presentation and, if these begin with a
kind, defaults of the fields that follow. -/
inductive CompletesItems (levels : Nat) : (items common : List (Padded Document)) → Prop
  | same (items : List (Padded Document)) : CompletesItems levels items items
  | defaults {tag : Padded Document} {items trailing : List (Padded Document)} {v : Value}
      {k : Kind} {values : List Value} (tag_value : tag.item.value? Mismatch levels = some v)
      (names : kindOf v = .ok k)
      (readable : (trailing.mapM fun p => p.item.value? Mismatch levels) = some values)
      (defaults : TrailsDefaults k items.length values) :
      CompletesItems levels (tag :: (items ++ trailing)) (tag :: items)

/-- The texts differ in presentation only, for a reader with so many levels left.  Where
brackets may not open, none are read, so it does not matter what is in them. -/
def Alike : (levels : Nat) → Document → Document → Prop
  | _, .literal l, .literal l' => l.value? Mismatch = l'.value? Mismatch
  | 0, .array .., .array .. => True
  | 0, .object .., .object .. => True
  | levels + 1, .array _ items, .array _ items' =>
      ∃ common common', CompletesItems levels items common ∧
        CompletesItems levels items' common' ∧
        List.Forall₂ (fun p p' => Alike levels p.item p'.item) common common'
  | levels + 1, .object _ members, .object _ members' =>
      ∃ common common' optional optional', Completes levels members common optional ∧
        Completes levels members' common' optional' ∧
        List.Forall₂ (fun m m' => m.1.item.value? Mismatch = m'.1.item.value? Mismatch ∧
          Alike levels m.2.item m'.2.item) common common'
  | _, _, _ => False

/-! ## Lists that are read alike -/

section Lists

variable {α β : Type}

theorem rel_trans {r : β → β → Prop} (h : ∀ a b c, r a b → r b c → r a c) {x y z : Option β}
    (hxy : Option.Rel r x y) (hyz : Option.Rel r y z) : Option.Rel r x z := by
  cases hxy with
  | none => exact hyz
  | some hab =>
      cases hyz with
      | some hbc => exact .some (h _ _ _ hab hbc)

theorem rel_symm {r : β → β → Prop} (h : ∀ a b, r a b → r b a) {x y : Option β}
    (hxy : Option.Rel r x y) : Option.Rel r y x := by
  cases hxy with
  | none => exact .none
  | some hab => exact .some (h _ _ hab)

theorem rel_map {γ : Type} {r : β → β → Prop} {s : γ → γ → Prop} {f : β → γ} {x y : Option β}
    (h : ∀ a b, r a b → s (f a) (f b)) (hxy : Option.Rel r x y) :
    Option.Rel s (x.map f) (y.map f) := by
  cases hxy with
  | none => exact .none
  | some hab => exact .some (h _ _ hab)

theorem mapM_perm (f : α → Option β) {items items' : List α} (h : items.Perm items') :
    Option.Rel List.Perm (items.mapM f) (items'.mapM f) := by
  induction h with
  | nil => exact .some .nil
  | @cons a items items' _ ih =>
      rw [List.mapM_cons, List.mapM_cons]
      cases f a with
      | none => exact .none
      | some b =>
          generalize items.mapM f = values? at ih
          generalize items'.mapM f = values?' at ih
          cases ih with
          | none => exact .none
          | some hperm => exact .some (hperm.cons b)
  | swap a a' items =>
      simp only [List.mapM_cons]
      cases f a with
      | none => cases f a' <;> exact .none
      | some b =>
          cases f a' with
          | none => exact .none
          | some b' =>
              cases items.mapM f with
              | none => exact .none
              | some values => exact .some (.swap b b' values)
  | trans _ _ ih ih' => exact rel_trans (fun _ _ _ hab hbc => hab.trans hbc) ih ih'

theorem mapM_forall₂ {f : α → Option β} {r : β → β → Prop} {items items' : List α}
    (h : List.Forall₂ (fun a a' => Option.Rel r (f a) (f a')) items items') :
    Option.Rel (List.Forall₂ r) (items.mapM f) (items'.mapM f) := by
  induction h with
  | nil => exact .some .nil
  | @cons a a' items items' ha _ ih =>
      rw [List.mapM_cons, List.mapM_cons]
      generalize f a = b? at ha
      generalize f a' = b?' at ha
      generalize items.mapM f = values? at ih
      generalize items'.mapM f = values?' at ih
      cases ha with
      | none => exact .none
      | some hb =>
          cases ih with
          | none => exact .none
          | some hvalues => exact .some (.cons hb hvalues)

theorem exists_mapM {f : α → Option β} {p : β → Prop} {items : List α}
    (h : ∀ a ∈ items, ∃ b, f a = some b ∧ p b) :
    ∃ values, items.mapM f = some values ∧ ∀ b ∈ values, p b := by
  induction items with
  | nil => exact ⟨[], rfl, by simp⟩
  | cons a items ih =>
      rw [List.forall_mem_cons] at h
      obtain ⟨b, hb, hp⟩ := h.1
      obtain ⟨values, hvalues, hall⟩ := ih h.2
      refine ⟨b :: values, ?_, List.forall_mem_cons.2 ⟨hp, hall⟩⟩
      rw [List.mapM_cons, hb, hvalues]
      rfl

theorem length_of_mapM {f : α → Option β} {items : List α} {values : List β}
    (h : items.mapM f = some values) : values.length = items.length := by
  induction items generalizing values with
  | nil =>
      cases h
      rfl
  | cons a items ih =>
      rw [List.mapM_cons] at h
      obtain ⟨b, -, hrest⟩ := Option.bind_eq_some_iff.1 h
      obtain ⟨values', hvalues', heq⟩ := Option.bind_eq_some_iff.1 hrest
      cases heq
      rw [List.length_cons, List.length_cons, ih hvalues']

theorem mem_of_mapM {f : α → Option β} {items : List α} {values : List β}
    (h : items.mapM f = some values) {a : α} (ha : a ∈ items) {b : β} (hb : f a = some b) :
    b ∈ values := by
  induction items generalizing values with
  | nil => cases ha
  | cons a' items ih =>
      rw [List.mapM_cons] at h
      obtain ⟨b', hb', hrest⟩ := Option.bind_eq_some_iff.1 h
      obtain ⟨values', hvalues', heq⟩ := Option.bind_eq_some_iff.1 hrest
      cases heq
      rcases List.mem_cons.1 ha with rfl | hmem
      · rw [hb] at hb'
        cases hb'
        exact List.mem_cons_self ..
      · exact List.mem_cons_of_mem _ (ih hvalues' hmem)

end Lists

/-! ## Objects and arrays -/

theorem names_of_mapM {levels : Nat} {members : List Member} {values : List (String × Value)}
    (h : members.mapM (Document.memberValue? Mismatch levels) = some values) :
    values.map Prod.fst = memberNames members := by
  induction members generalizing values with
  | nil =>
      cases h
      rfl
  | cons m members ih =>
      rw [List.mapM_cons] at h
      obtain ⟨member, hmember, hrest⟩ := Option.bind_eq_some_iff.1 h
      obtain ⟨values', hvalues', heq⟩ := Option.bind_eq_some_iff.1 hrest
      cases heq
      obtain ⟨name, hname, hvalue⟩ := Option.bind_eq_some_iff.1 hmember
      obtain ⟨v, -, heq⟩ := Option.bind_eq_some_iff.1 hvalue
      cases heq
      rw [List.map_cons, ih hvalues', memberNames, memberNames, List.filterMap_cons, hname]

/-- What a reader with so many levels left gets of the two is nothing or interchangeable. -/
def ReadAlike (Op : Type) [OperatorForm Op] (levels : Nat) (d d' : Document) : Prop :=
  Option.Rel (Interchangeable Op) (d.value? Mismatch levels) (d'.value? Mismatch levels)

variable {Op : Type} [OperatorForm Op]

theorem ReadAlike.symm {levels : Nat} {d d' : Document} (h : ReadAlike Op levels d d') :
    ReadAlike Op levels d' d :=
  rel_symm (fun _ _ hv => hv.symm) h

theorem ReadAlike.trans {levels : Nat} {d d' d'' : Document} (h : ReadAlike Op levels d d')
    (h' : ReadAlike Op levels d' d'') : ReadAlike Op levels d d'' :=
  rel_trans (fun _ _ _ hv hv' => hv.trans hv') h h'

theorem Completes.distinct_common {levels : Nat} {members common optional : List Member}
    (h : Completes levels members common optional) : (memberNames common).Nodup := by
  have hdistinct := (h.perm.filterMap _).nodup_iff.1 h.distinct
  rw [List.filterMap_append] at hdistinct
  exact hdistinct.of_append_left

theorem Completes.extends {levels : Nat} {members common optional : List Member}
    (h : Completes levels members common optional) {values : List (String × Value)}
    (hcommon : common.mapM (Document.memberValue? Mismatch levels) = some values) :
    ∃ extra values', members.mapM (Document.memberValue? Mismatch levels) = some values' ∧
      Extends values' values extra := by
  have hoptional : ∀ m ∈ optional, ∃ member,
      Document.memberValue? Mismatch levels m = some member ∧ ∃ tag k,
        (tagName, tag) ∈ values ∧ kindOf tag = .ok k ∧ Dispensable k member := by
    intro m hm
    obtain ⟨t, ht, tag, k, member, htag, hk, hmember, hdispensable⟩ := h.omissible m hm
    exact ⟨member, hmember, tag, k, mem_of_mapM hcommon ht htag, hk, hdispensable⟩
  obtain ⟨extra, hextra, hdispensable⟩ := exists_mapM hoptional
  have hperm := mapM_perm (Document.memberValue? Mismatch levels) h.perm
  rw [List.mapM_append, hcommon, hextra] at hperm
  cases hmembers : members.mapM (Document.memberValue? Mismatch levels) with
  | none =>
      rw [hmembers] at hperm
      cases hperm
  | some values' =>
      rw [hmembers] at hperm
      cases hperm with
      | some hperm =>
          exact ⟨extra, values', rfl, hperm, names_of_mapM hmembers ▸ h.distinct, hdispensable⟩

/-- Members beside those in common change nothing. -/
theorem Completes.readAlike {levels : Nat} {members common optional : List Member}
    (h : Completes levels members common optional) (inner inner' : Spaces) :
    ReadAlike Op (levels + 1) (.object inner members) (.object inner' common) := by
  rw [ReadAlike, Document.value?, Document.value?, Document.memberValues?_eq_mapM,
    Document.memberValues?_eq_mapM]
  cases hcommon : common.mapM (Document.memberValue? Mismatch levels) with
  | some values =>
      obtain ⟨extra, values', hmembers, hextends⟩ := h.extends hcommon
      rw [hmembers]
      exact .some hextends.interchangeable
  | none =>
      have hperm := mapM_perm (Document.memberValue? Mismatch levels) h.perm
      rw [List.mapM_append, hcommon] at hperm
      generalize members.mapM (Document.memberValue? Mismatch levels) = values? at hperm
      cases hperm
      exact .none

theorem rel_memberValue? {levels : Nat} {m m' : Member}
    (hname : m.1.item.value? Mismatch = m'.1.item.value? Mismatch)
    (hvalue : ReadAlike Op levels m.2.item m'.2.item) :
    Option.Rel (SameMember Op) (Document.memberValue? Mismatch levels m)
      (Document.memberValue? Mismatch levels m') := by
  unfold ReadAlike at hvalue
  rw [Document.memberValue?, Document.memberValue?, hname]
  cases m'.1.item.value? Mismatch with
  | none => exact .none
  | some name =>
      generalize m.2.item.value? Mismatch levels = v? at hvalue
      generalize m'.2.item.value? Mismatch levels = v?' at hvalue
      cases hvalue with
      | none => exact .none
      | some hv => exact .some ⟨rfl, hv⟩

/-- Values of members may be replaced in their places. -/
theorem readAlike_object {levels : Nat} {members members' : List Member}
    (hdistinct : (memberNames members).Nodup)
    (h : List.Forall₂ (fun m m' => m.1.item.value? Mismatch = m'.1.item.value? Mismatch ∧
      ReadAlike Op levels m.2.item m'.2.item) members members')
    (inner inner' : Spaces) :
    ReadAlike Op (levels + 1) (.object inner members) (.object inner' members') := by
  have hsame : Option.Rel (List.Forall₂ (SameMember Op))
      (members.mapM (Document.memberValue? Mismatch levels))
      (members'.mapM (Document.memberValue? Mismatch levels)) :=
    mapM_forall₂ (h.imp fun _ _ hm => rel_memberValue? hm.1 hm.2)
  rw [ReadAlike, Document.value?, Document.value?, Document.memberValues?_eq_mapM,
    Document.memberValues?_eq_mapM]
  cases hvalues : members.mapM (Document.memberValue? Mismatch levels) with
  | none =>
      rw [hvalues] at hsame
      generalize members'.mapM (Document.memberValue? Mismatch levels) = values? at hsame
      cases hsame
      exact .none
  | some values =>
      rw [hvalues] at hsame
      generalize members'.mapM (Document.memberValue? Mismatch levels) = values? at hsame
      cases hsame with
      | some hsame =>
          exact .some (interchangeable_of_sameMember hsame (names_of_mapM hvalues ▸ hdistinct))

/-- Defaults behind the items in common change nothing. -/
theorem CompletesItems.readAlike {levels : Nat} {items common : List (Padded Document)}
    (h : CompletesItems levels items common) (inner inner' : Spaces) :
    ReadAlike Op (levels + 1) (.array inner items) (.array inner' common) := by
  rw [ReadAlike, Document.value?, Document.value?, Document.itemValues?_eq_mapM,
    Document.itemValues?_eq_mapM]
  cases h with
  | same =>
      cases items.mapM fun p => p.item.value? Mismatch levels with
      | none => exact .none
      | some values => exact .some (.same _)
  | @defaults tag items trailing v k values htag hk hreadable hdefaults =>
      rw [List.mapM_cons, List.mapM_cons, List.mapM_append, htag, hreadable]
      cases hitems : items.mapM fun p => p.item.value? Mismatch levels with
      | none => exact .none
      | some values' =>
          rw [← length_of_mapM hitems] at hdefaults
          exact .some (interchangeable_append hk hdefaults)

theorem readAlike_array {levels : Nat} {items items' : List (Padded Document)}
    (h : List.Forall₂ (fun p p' => ReadAlike Op levels p.item p'.item) items items')
    (inner inner' : Spaces) :
    ReadAlike Op (levels + 1) (.array inner items) (.array inner' items') := by
  rw [ReadAlike, Document.value?, Document.value?, Document.itemValues?_eq_mapM,
    Document.itemValues?_eq_mapM]
  exact rel_map (fun _ _ hvalues => interchangeable_items hvalues) (mapM_forall₂ h)

theorem readAlike_literal {levels : Nat} {l l' : Json.Literal}
    (h : l.value? Mismatch = l'.value? Mismatch) :
    ReadAlike Op levels (.literal l) (.literal l') := by
  rw [ReadAlike, Document.value?, Document.value?, h]
  cases l'.value? Mismatch with
  | none => exact .none
  | some v => exact .some (.same v)

/-- Texts that differ in presentation only are both unreadable or read as interchangeable
values. -/
theorem Alike.readAlike {levels : Nat} {d d' : Document} (h : Alike levels d d') :
    ReadAlike Op levels d d' := by
  induction levels generalizing d d' with
  | zero =>
      cases d with
      | literal l =>
          cases d' with
          | literal l' => exact readAlike_literal h
          | array | object => cases h
      | array =>
          cases d' with
          | array => exact .none
          | literal | object => cases h
      | object =>
          cases d' with
          | object => exact .none
          | literal | array => cases h
  | succ levels ih =>
      cases d with
      | literal l =>
          cases d' with
          | literal l' => exact readAlike_literal h
          | array | object => cases h
      | array inner items =>
          cases d' with
          | array inner' items' =>
              -- from either text to what they have in common, and across by the levels below
              obtain ⟨common, common', hitems, hitems', hcommon⟩ := h
              have hbetween := readAlike_array (hcommon.imp fun _ _ hp => ih hp) inner inner'
              exact ((hitems.readAlike inner inner).trans hbetween).trans
                (hitems'.readAlike inner' inner').symm
          | literal | object => cases h
      | object inner members =>
          cases d' with
          | object inner' members' =>
              obtain ⟨common, common', _, _, hmembers, hmembers', hcommon⟩ := h
              have hbetween := readAlike_object hmembers.distinct_common
                (hcommon.imp fun _ _ hm => ⟨hm.1, ih hm.2⟩) inner inner'
              exact ((hmembers.readAlike inner inner).trans hbetween).trans
                (hmembers'.readAlike inner' inner').symm
          | literal | array => cases h

/-! ## Presentations of values -/

/-- A member in the compact form, or in the spread form at some level. -/
def memberDocument (level? : Option Nat) (m : String × Value) : Member :=
  (⟨Json.lineSpaces level?, .ofString m.1, .none⟩,
    ⟨Json.valueSpaces level?, m.2.document level?, .none⟩)

theorem memberDocuments_eq_map (level? : Option Nat) (members : List (String × Value)) :
    Json.memberDocuments level? members = members.map (memberDocument level?) := by
  induction members with
  | nil => rfl
  | cons m members ih =>
      rw [Json.memberDocuments, ih]
      rfl

theorem memberValue?_document (level? : Option Nat) (levels : Nat) (m : String × Value) :
    Document.memberValue? Mismatch levels (memberDocument level? m) =
      (m.2.within? Mismatch levels).map fun v => (m.1, v) := by
  rw [Document.memberValue?, memberDocument, Json.StringText.value?_ofString,
    Json.value?_document]
  cases m.2.within? Mismatch levels <;> rfl

theorem memberNames_document (level? : Option Nat) (members : List (String × Value)) :
    memberNames (members.map (memberDocument level?)) = members.map Prod.fst := by
  rw [memberNames, List.filterMap_map, ← List.filterMap_eq_map]
  congr 1
  funext m
  exact Json.StringText.value?_ofString m.1

theorem completes_document (level? : Option Nat) {levels : Nat}
    {members common optional : List (String × Value)} (perm : members.Perm (common ++ optional))
    (distinct : (members.map Prod.fst).Nodup)
    (readable : ∀ m ∈ optional, m.2.within? Mismatch levels = some m.2)
    (omissible : ∀ m ∈ optional, ∃ name k, (tagName, Value.string name) ∈ common ∧
      Kind.ofName name = .ok k ∧ Dispensable k m) :
    Completes levels (Json.memberDocuments level? members) (common.map (memberDocument level?))
      (optional.map (memberDocument level?)) := by
  rw [memberDocuments_eq_map]
  refine ⟨?_, ?_, ?_⟩
  · rw [← List.map_append]
    exact perm.map _
  · rw [memberNames_document]
    exact distinct
  · intro m' hm'
    obtain ⟨m, hm, rfl⟩ := List.mem_map.1 hm'
    obtain ⟨name, k, htag, hk, hdispensable⟩ := omissible m hm
    refine ⟨_, List.mem_map_of_mem htag, .string name, k, m, ?_, hk, ?_, hdispensable⟩
    · rw [memberValue?_document]
      rfl
    · rw [memberValue?_document, readable m hm]
      rfl

def negationOperand : Value :=
  .object [("type", .string "boolean_literal"), ("value", .bool true)]

def plainNegation : Value :=
  .object [("type", .string "unary"), ("op", .string "not"), ("operand", negationOperand)]

def variedOperand : Value :=
  .object [("value", .bool true), ("type", .string "boolean_literal")]

/-- The same with the kind at the end, an empty identity that is written out and a note that
no node knows. -/
def variedNegation : Value :=
  .object [("id", .string ""), ("note", .array [.null]), ("operand", variedOperand),
    ("op", .string "not"), ("type", .string "unary")]

theorem alike_operands :
    Alike (Json.maxDepth - 1) (variedOperand.document (some 1))
      (negationOperand.document none) := by
  have hvaried := @completes_document (some 2) (Json.maxDepth - 2) _
    [("value", .bool true), ("type", .string "boolean_literal")] [] (.refl _) (by decide)
    (by simp) (by simp)
  have hplain := @completes_document none (Json.maxDepth - 2) _
    [("value", .bool true), ("type", .string "boolean_literal")] [] (.swap ..) (by decide)
    (by simp) (by simp)
  exact ⟨_, _, _, _, hvaried, hplain, .cons ⟨rfl, rfl⟩ (.cons ⟨rfl, rfl⟩ .nil)⟩

theorem alike_negations :
    Alike Json.maxDepth (variedNegation.document (some 0)) (plainNegation.document none) := by
  have hreadable : ∀ m ∈ [("id", Value.string ""), ("note", .array [.null])],
      m.2.within? Mismatch (Json.maxDepth - 1) = some m.2 := by
    simp only [List.forall_mem_cons]
    exact ⟨rfl, rfl, by simp⟩
  have hdispensable : ∀ m ∈ [("id", Value.string ""), ("note", .array [.null])],
      Dispensable .unary m := by
    intro m hm
    rcases List.mem_pair.1 hm with rfl | rfl
    · refine ⟨by decide, ?_⟩
      intro f hf
      cases hf
      rfl
    · refine ⟨by decide, ?_⟩
      intro f hf
      cases hf
  have hvaried := @completes_document (some 1) (Json.maxDepth - 1) _
    [("operand", variedOperand), ("op", .string "not"), ("type", .string "unary")] _
    List.perm_append_comm (by decide) hreadable
    fun m hm => ⟨"unary", .unary, by simp [tagName], rfl, hdispensable m hm⟩
  have hplain := @completes_document none (Json.maxDepth - 1) _
    [("operand", negationOperand), ("op", .string "not"), ("type", .string "unary")] []
    (List.reverse_perm [("operand", negationOperand), ("op", .string "not"),
      ("type", .string "unary")]) (by decide) (by simp) (by simp)
  exact ⟨_, _, _, _, hvaried, hplain,
    .cons ⟨rfl, alike_operands⟩ (.cons ⟨rfl, rfl⟩ (.cons ⟨rfl, rfl⟩ .nil))⟩

/-! ## Brackets of defaults -/

/-- A value inside so many negations. -/
def negations : Nat → Value → Value
  | 0, v => v
  | n + 1, v => .object [(tagName, .string Kind.unary.name), (Field.op.key, .string "not"),
      (Field.operand.key, negations n v)]

/-- A tree inside so many negations. -/
def negate : Nat → Expr Token → Expr Token
  | 0, e => e
  | n + 1, e => .unary "" (.keyword .not) (some (negate n e))

theorem depth_negations (n : Nat) (v : Value) : (negations n v).depth = n + v.depth := by
  induction n with
  | zero => rw [negations, Nat.zero_add]
  | succ n ih =>
      have hdepth : (negations (n + 1) v).depth = (negations n v).depth + 1 := by
        simp [negations, Value.depth, Json.membersDepth]
      omega

theorem reread?_negations (n : Nat) {v : Value} (h : v.reread? Mismatch = some v) :
    (negations n v).reread? Mismatch = some (negations n v) := by
  induction n with
  | zero => exact h
  | succ n ih =>
      simp [negations, Value.reread?, Json.rereadMembers?, ih]

theorem isNull_of_decode {v : Value} {e : Expr Token}
    (h : (decode v : Except Mismatch (Expr Token)).toOption = some e) : isNull v = false := by
  cases v with
  | null =>
      rw [decode] at h
      · cases h
      all_goals simp
  | bool | number | string | array | object => rfl

theorem decode_negations (n : Nat) {v : Value} {e : Expr Token}
    (h : (decode v).toOption = some e) : (decode (negations n v)).toOption = some (negate n e) := by
  induction n with
  | zero => exact h
  | succ n ih =>
      have hnode : (decode (negations (n + 1) v) : Except Mismatch (Expr Token)).toOption =
          node? .unary [(.op, .string "not"), (.operand, negations n v)] {} := by
        have hdistinct : [tagName, Field.op.key, Field.operand.key].Nodup := by decide
        rw [negations, decode_object_node?]
        · rfl
        · exact hdistinct
      have hop : entryOf? .unary .op (.string "not") = some (.op (Token.keyword .not)) := rfl
      have hoperand : entryOf? .unary .operand (negations n v) =
          some (.operand (some (negate n e))) := by
        rw [entryOf?, toOption_operand, isNull_of_decode ih, ih]
        rfl
      rw [hnode, node?_cons, hop, Option.bind_some, node?_cons, hoperand]
      rfl

end Interchange

namespace Expr

open Interchange

variable {Op : Type} [OperatorForm Op]

/-- Texts that differ in presentation only, whatever stands around them, are both read, and
as the same tree, or neither is. -/
theorem ofJson_ok_iff_of_alike {d d' : Json.Document} (h : Alike Json.maxDepth d d')
    (before after before' after' : Json.Spaces) (e : Expr Op) :
    ofJson (String.ofList (before.text ++ (d.text ++ after.text))) = .ok e ↔
      ofJson (String.ofList (before'.text ++ (d'.text ++ after'.text))) = .ok e := by
  have hrel : ReadAlike Op Json.maxDepth d d' := h.readAlike
  unfold ReadAlike at hrel
  rw [← Json.toOption_eq_some, ← Json.toOption_eq_some, toOption_ofJson, toOption_ofJson]
  generalize d.value? Mismatch Json.maxDepth = v? at hrel
  generalize d'.value? Mismatch Json.maxDepth = v?' at hrel
  cases hrel with
  | none => rfl
  | some hv => rw [Option.bind_some, Option.bind_some, hv.outermost?]

/-- One text in the spread form, whose kind comes last, and one in the compact form. -/
theorem ofJson_ok_iff_of_alike_negations :
    Alike Json.maxDepth (variedNegation.document (some 0)) (plainNegation.document none) ∧
    ofJson (String.ofList (variedNegation.spreadText 0)) =
      .ok (unary "" (Token.keyword .not) (some (boolean "" true))) := by
  have hplain : ofJson (String.ofList plainNegation.text) =
      .ok (unary "" (Token.keyword .not) (some (boolean "" true))) := by
    rw [← Json.toOption_eq_some, toOption_ofJson_text]
    rfl
  have hnone : ∀ text, Json.Spaces.none.text ++ (text ++ Json.Spaces.none.text) = text :=
    List.append_nil
  have hiff := ofJson_ok_iff_of_alike alike_negations .none .none .none .none
    (unary "" (Token.keyword .not) (some (boolean "" true)))
  rw [hnone, hnone, Json.text_spread, Json.text_compact] at hiff
  exact ⟨alike_negations, hiff.2 hplain⟩

/-- Inside the deepest brackets that are read, an empty list of children may not be written
out: it has brackets of its own. -/
theorem empty_children_nest_too_deep :
    ofJson (String.ofList (negations 126 (.object [(tagName, .string "group")])).text) =
        .ok (negate 126 (group "" [])) ∧
      ∀ e : Expr Token, ofJson (String.ofList (negations 126
        (.object [(tagName, .string "group"), (Field.children.key, .array [])])).text) ≠ .ok e := by
  constructor
  · have hgroup : (decode (.object [(tagName, .string "group")])).toOption =
        some (group "" [] : Expr Token) := rfl
    have hdepth : (negations 126 (.object [(tagName, .string "group")])).depth = Json.maxDepth :=
      depth_negations 126 _
    have hnames : namesKind (negations 126 (.object [(tagName, .string "group")])) = true := rfl
    rw [← Json.toOption_eq_some, toOption_ofJson_text, Json.Value.within?, if_pos hdepth.le,
      reread?_negations 126 rfl, Option.bind_some, outermost?, if_pos hnames]
    exact decode_negations 126 hgroup
  · intro e
    have hdepth : (negations 126 (.object [(tagName, .string "group"),
        (Field.children.key, .array [])])).depth = Json.maxDepth + 1 :=
      depth_negations 126 _
    rw [Ne, ← Json.toOption_eq_some, toOption_ofJson_text, Json.Value.within?,
      if_neg (by omega)]
    simp

end Expr
end FilterLang
