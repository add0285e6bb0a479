import FilterLang.Proofs.FilledDrafts
import Mathlib.Data.List.Forall2
import Mathlib.Data.List.Perm.Basic

/-!
# Values that stand for the same node

Two values are interchangeable if nothing that is read of them tells them apart.
Objects are if they differ in the order of their members, in members that the kind
does not know, in defaults, and in values that are interchangeable themselves; arrays
are if one has more defaults at its end.

Each of these differences is taken on its own, from an object to one with fewer or
other members, and a whole difference is put together from such steps.
-/

namespace FilterLang
namespace Interchange

open Json (Value toOption_map toOption_bind)

variable {Op : Type}

/-! ## Lengths of arrays -/

/-- Whether an array of so many items has all that it must have and none too many. -/
def Kind.Accepts (k : Kind) (length : Nat) : Prop :=
  length ≤ k.fields.length ∧ ∀ f ∈ k.fields.drop length, f.isRequired = false

instance (k : Kind) (length : Nat) : Decidable (k.Accepts length) :=
  inferInstanceAs (Decidable (_ ∧ _))

theorem toOption_assembleItems {k : Kind} {length : Nat} (h : k.Accepts length)
    (draft : Draft Op) :
    (draft.assembleItems k length).toOption = (draft.assemble k).toOption := by
  rw [Draft.assembleItems, if_neg (Nat.not_lt.2 h.1), List.findIdx?_eq_none_iff.2 h.2]

theorem toOption_assembleItems_not {k : Kind} {length : Nat} (h : ¬ k.Accepts length)
    (draft : Draft Op) : (draft.assembleItems k length).toOption = none := by
  rw [Draft.assembleItems]
  split
  · rfl
  next hlength =>
    cases hmissing : (k.fields.drop length).findIdx? Field.isRequired with
    | some i => rfl
    | none => exact absurd ⟨Nat.not_lt.1 hlength, List.findIdx?_eq_none_iff.1 hmissing⟩ h

theorem not_isRequired_of_default? {f : Field} {v : Value} (h : f.default? = some v) :
    f.isRequired = false := by
  cases f with
  | id | children | lhs | rhs | rhs2 | operand => rfl
  | op | name | value => cases h

theorem accepts_succ {k : Kind} {length : Nat} {f : Field} {v : Value}
    (hfield : k.fields[length]? = some f) (hdefault : f.default? = some v) :
    k.Accepts (length + 1) ↔ k.Accepts length := by
  obtain ⟨hlength, hget⟩ := List.getElem?_eq_some_iff.1 hfield
  unfold Kind.Accepts
  rw [List.drop_eq_getElem_cons hlength, List.forall_mem_cons, hget]
  simp [not_isRequired_of_default? hdefault, Nat.succ_le_of_lt hlength, hlength.le]

/-! ## Interchangeable values -/

/-- Values that read alike wherever they stand in a node. -/
inductive Interchangeable (Op : Type) [OperatorForm Op] : Value → Value → Prop
  | same (v : Value) : Interchangeable Op v v
  | arrays {items items' : List Value}
      (names : namesKind (.array items) = namesKind (.array items'))
      (tree : (decode (.array items) : Except Mismatch (Expr Op)).toOption =
        (decode (.array items')).toOption)
      (children : (decodeChildList items : Except Mismatch (List (Option (Expr Op)))).toOption =
        (decodeChildList items').toOption) :
      Interchangeable Op (.array items) (.array items')
  | objects {members members' : List (String × Value)}
      (names : namesKind (.object members) = namesKind (.object members'))
      (tree : (decode (.object members) : Except Mismatch (Expr Op)).toOption =
        (decode (.object members')).toOption) :
      Interchangeable Op (.object members) (.object members')

variable [OperatorForm Op]

namespace Interchangeable

variable {v v' v'' : Value}

theorem symm (h : Interchangeable Op v v') : Interchangeable Op v' v := by
  cases h with
  | same => exact .same v
  | arrays names tree children => exact .arrays names.symm tree.symm children.symm
  | objects names tree => exact .objects names.symm tree.symm

theorem trans (h : Interchangeable Op v v') (h' : Interchangeable Op v' v'') :
    Interchangeable Op v v'' := by
  cases h with
  | same => exact h'
  | arrays names tree children =>
      cases h' with
      | same => exact .arrays names tree children
      | arrays names' tree' children' =>
          exact .arrays (names.trans names') (tree.trans tree') (children.trans children')
  | objects names tree =>
      cases h' with
      | same => exact .objects names tree
      | objects names' tree' => exact .objects (names.trans names') (tree.trans tree')

theorem outermost? (h : Interchangeable Op v v') :
    (outermost? v : Option (Expr Op)) = Interchange.outermost? v' := by
  cases h with
  | same => rfl
  | arrays names tree children =>
      rw [Interchange.outermost?, Interchange.outermost?, names, tree]
  | objects names tree => rw [Interchange.outermost?, Interchange.outermost?, names, tree]

theorem kindOf (h : Interchangeable Op v v') :
    (kindOf v).toOption = (Interchange.kindOf v').toOption := by
  cases h <;> rfl

theorem readText (h : Interchangeable Op v v') :
    (readText v).toOption = (Interchange.readText v').toOption := by
  cases h <;> rfl

theorem operand (h : Interchangeable Op v v') :
    ((subtrees v : Subtrees Op).operand ()).toOption = ((subtrees v').operand ()).toOption := by
  cases h with
  | same => rfl
  | arrays names tree children =>
      rw [toOption_operand, toOption_operand, tree]
      rfl
  | objects names tree =>
      rw [toOption_operand, toOption_operand, tree]
      rfl

theorem children (h : Interchangeable Op v v') :
    ((subtrees v : Subtrees Op).children ()).toOption = ((subtrees v').children ()).toOption := by
  cases h with
  | same => rfl
  | arrays names tree children =>
      change (decodeChildren _).toOption = (decodeChildren _).toOption
      rw [decodeChildren, decodeChildren, children]
  | objects names tree =>
      change (decodeChildren _).toOption = (decodeChildren _).toOption
      rw [decodeChildren, decodeChildren]
      · rfl
      all_goals simp

theorem entryOf? (h : Interchangeable Op v v') (k : Kind) (f : Field) :
    (entryOf? k f v : Option (Entry Op)) = Interchange.entryOf? k f v' := by
  cases f with
  | id | op | name => rw [Interchange.entryOf?, Interchange.entryOf?, h.readText]
  | children => rw [Interchange.entryOf?, Interchange.entryOf?, h.children]
  | lhs | rhs | rhs2 | operand => rw [Interchange.entryOf?, Interchange.entryOf?, h.operand]
  | value => cases h <;> cases k <;> rfl

end Interchangeable

theorem node?_interchangeable (k : Kind) {fields fields' : List (Field × Value)}
    (h : List.Forall₂ (fun p p' => p.1 = p'.1 ∧ Interchangeable Op p.2 p'.2) fields fields')
    (draft : Draft Op) : node? k fields draft = node? k fields' draft := by
  induction h generalizing draft with
  | nil => rfl
  | @cons p p' fields fields' hp _ ih =>
      rw [node?_cons, node?_cons, hp.1, hp.2.entryOf?]
      simp only [ih]

/-! ## Objects -/

/-- With names that are all different, the kind is what stands under its name. -/
theorem toOption_kindAmong {members : List (String × Value)}
    (hdistinct : (members.map Prod.fst).Nodup) :
    (kindAmong members none).toOption =
      (members.lookup tagName).bind fun tag => (kindOf tag).toOption := by
  induction members with
  | nil => rfl
  | cons m members ih =>
      rw [List.map_cons, List.nodup_cons] at hdistinct
      rw [kindAmong]
      by_cases htag : m.1 = tagName
      · have hno : ∀ m' ∈ members, m'.1 ≠ tagName := by
          intro m' hm' heq
          apply hdistinct.1
          rw [htag, ← heq]
          exact List.mem_map_of_mem hm'
        rw [if_pos htag, lookup_cons_of_eq htag, toOption_bind, Option.bind_some]
        simp only [kindAmong_of_no_tag hno]
        cases kindOf m.2 <;> rfl
      · rw [if_neg htag, lookup_cons_of_ne htag, ih hdistinct.2]

theorem decode_object_node? {members : List (String × Value)}
    (hdistinct : (members.map Prod.fst).Nodup) :
    (decode (.object members) : Except Mismatch (Expr Op)).toOption =
      (members.lookup tagName).bind fun tag =>
        (kindOf tag).toOption.bind fun k => node? k (known k members) {} := by
  have hnode : ∀ k, ((decodeMembers k [] members {}).toOption.bind fun draft =>
      (draft.assemble k : Except Mismatch (Expr Op)).toOption) = node? k (known k members) {} := by
    intro k
    rw [toOption_decodeMembers k (nodup_known k hdistinct) (by simp), node?]
  rw [decode_object, toOption_kindAmong hdistinct, Option.bind_assoc]
  simp only [hnode]

theorem lookup_eq_some_iff_mem {members : List (String × Value)}
    (hdistinct : (members.map Prod.fst).Nodup) {name : String} {v : Value} :
    members.lookup name = some v ↔ (name, v) ∈ members := by
  induction members with
  | nil => simp
  | cons m members ih =>
      rw [List.map_cons, List.nodup_cons] at hdistinct
      by_cases hname : m.1 = name
      · have hnot : (name, v) ∉ members :=
          fun h => hdistinct.1 (List.mem_map.2 ⟨(name, v), h, hname.symm⟩)
        rw [lookup_cons_of_eq hname, List.mem_cons, Option.some_inj]
        constructor
        · rintro rfl
          exact Or.inl (Prod.ext hname.symm rfl)
        · rintro (rfl | hmem)
          · rfl
          · exact absurd hmem hnot
      · have hne : (name, v) ≠ m := fun h => hname (congrArg Prod.fst h).symm
        rw [lookup_cons_of_ne hname, ih hdistinct.2, List.mem_cons, or_iff_right hne]

/-- A member of a node of this kind that may as well be left out: the kind does not know
it, or it holds the default of its field. -/
def Dispensable (k : Kind) (m : String × Value) : Prop :=
  m.1 ≠ tagName ∧ ∀ f, k.field? m.1 = some f → f.default? = some m.2

/-- The members of an object are some members and others beside them that may as well be
left out. -/
structure Extends (members common : List (String × Value)) (optional : List (String × Value)) :
    Prop where
  perm : members.Perm (common ++ optional)
  distinct : (members.map Prod.fst).Nodup
  dispensable : ∀ m ∈ optional, ∃ tag k,
    (tagName, tag) ∈ common ∧ kindOf tag = .ok k ∧ Dispensable k m

namespace Extends

variable {members common optional : List (String × Value)}

theorem distinct_append (h : Extends members common optional) :
    ((common ++ optional).map Prod.fst).Nodup :=
  (h.perm.map Prod.fst).nodup_iff.1 h.distinct

theorem distinct_common (h : Extends members common optional) : (common.map Prod.fst).Nodup := by
  have hdistinct := h.distinct_append
  rw [List.map_append] at hdistinct
  exact hdistinct.of_append_left

theorem lookup_tagName (h : Extends members common optional) :
    members.lookup tagName = common.lookup tagName := by
  apply Option.ext
  intro tag
  rw [lookup_eq_some_iff_mem h.distinct, lookup_eq_some_iff_mem h.distinct_common,
    h.perm.mem_iff, List.mem_append]
  constructor
  · rintro (hcommon | hoptional)
    · exact hcommon
    · obtain ⟨_, _, _, _, hdispensable⟩ := h.dispensable _ hoptional
      exact absurd rfl hdispensable.1
  · exact Or.inl

theorem node? (h : Extends members common optional) {tag : Value} {k : Kind}
    (htag : common.lookup tagName = some tag) (hk : kindOf tag = .ok k) :
    (node? k (known k members) {} : Option (Expr Op)) =
      Interchange.node? k (known k common) {} := by
  have hperm : (known k members).Perm (known k common ++ known k optional) := by
    rw [known, known, known, ← List.filterMap_append]
    exact h.perm.filterMap _
  apply node?_written k hperm (nodup_known k h.distinct)
  intro p hp
  obtain ⟨m, hm, hfield⟩ := List.mem_filterMap.1 hp
  obtain ⟨f, hf, rfl⟩ := Option.map_eq_some_iff.1 hfield
  obtain ⟨tag', k', htag', hk', hdispensable⟩ := h.dispensable m hm
  rw [← lookup_eq_some_iff_mem h.distinct_common, htag] at htag'
  cases htag'
  rw [hk] at hk'
  cases hk'
  exact hdispensable.2 f hf

/-- Neither the order of members nor those that may be left out matter. -/
theorem interchangeable (h : Extends members common optional) :
    Interchangeable Op (.object members) (.object common) := by
  apply Interchangeable.objects
  · rw [namesKind, namesKind, h.lookup_tagName]
  · rw [decode_object_node? h.distinct, decode_object_node? h.distinct_common, h.lookup_tagName]
    cases htag : common.lookup tagName with
    | none => rfl
    | some tag =>
        dsimp only [Option.bind_some]
        cases hk : kindOf tag with
        | error e => rfl
        | ok k => exact h.node? htag hk

end Extends

/-- Members of the same name whose values are interchangeable. -/
def SameMember (Op : Type) [OperatorForm Op] (m m' : String × Value) : Prop :=
  m.1 = m'.1 ∧ Interchangeable Op m.2 m'.2

theorem names_eq_of_sameMember {members members' : List (String × Value)}
    (h : List.Forall₂ (SameMember Op) members members') :
    members.map Prod.fst = members'.map Prod.fst := by
  induction h with
  | nil => rfl
  | cons hm _ ih => rw [List.map_cons, List.map_cons, hm.1, ih]

theorem known_of_sameMember (k : Kind) {members members' : List (String × Value)}
    (h : List.Forall₂ (SameMember Op) members members') :
    List.Forall₂ (fun p p' => p.1 = p'.1 ∧ Interchangeable Op p.2 p'.2)
      (known k members) (known k members') := by
  induction h with
  | nil => exact .nil
  | @cons m m' members members' hm _ ih =>
      cases hfield : k.field? m.1 with
      | none => rwa [known_cons_none hfield, known_cons_none (hm.1 ▸ hfield)]
      | some f =>
          rw [known_cons_some hfield, known_cons_some (hm.1 ▸ hfield)]
          exact .cons ⟨rfl, hm.2⟩ ih

theorem lookup_of_sameMember (name : String) {members members' : List (String × Value)}
    (h : List.Forall₂ (SameMember Op) members members') :
    Option.Rel (Interchangeable Op) (members.lookup name) (members'.lookup name) := by
  induction h with
  | nil => exact .none
  | @cons m m' members members' hm _ ih =>
      rw [List.lookup_cons, List.lookup_cons, hm.1]
      cases name == m'.1 with
      | true => exact .some hm.2
      | false => exact ih

theorem namesKind_of_sameMember {members members' : List (String × Value)}
    (h : List.Forall₂ (SameMember Op) members members') :
    namesKind (.object members) = namesKind (.object members') := by
  have hlookup := lookup_of_sameMember tagName h
  rw [namesKind, namesKind]
  generalize members.lookup tagName = tag? at hlookup
  generalize members'.lookup tagName = tag?' at hlookup
  cases hlookup with
  | none => rfl
  | some htag => cases htag <;> rfl

theorem interchangeable_of_sameMember {members members' : List (String × Value)}
    (h : List.Forall₂ (SameMember Op) members members')
    (hdistinct : (members.map Prod.fst).Nodup) :
    Interchangeable Op (.object members) (.object members') := by
  apply Interchangeable.objects (namesKind_of_sameMember h)
  have hlookup := lookup_of_sameMember tagName h
  rw [decode_object_node? hdistinct, decode_object_node? (names_eq_of_sameMember h ▸ hdistinct)]
  generalize members.lookup tagName = tag? at hlookup
  generalize members'.lookup tagName = tag?' at hlookup
  cases hlookup with
  | none => rfl
  | some htag =>
      rw [Option.bind_some, Option.bind_some, htag.kindOf]
      congr 1
      funext k
      exact node?_interchangeable k (known_of_sameMember k h) {}

/-! ## Arrays -/

theorem decode_array_node? (tag : Value) (items : List Value) :
    (decode (.array (tag :: items)) : Except Mismatch (Expr Op)).toOption =
      (kindOf tag).toOption.bind fun k =>
        if k.Accepts items.length then node? k (k.fields.zip items) {} else none := by
  rw [decode_array]
  congr 1
  funext k
  rw [toOption_decodeItems]
  split
  next haccepts => simp only [toOption_assembleItems haccepts, node?]
  next haccepts => simp [toOption_assembleItems_not haccepts]

theorem fields_nodup (k : Kind) : k.fields.Nodup := by
  cases k <;> decide

theorem zip_concat {fields : List Field} {items : List Value} {f : Field}
    (hfield : fields[items.length]? = some f) (v : Value) :
    fields.zip (items ++ [v]) = fields.zip items ++ [(f, v)] := by
  induction items generalizing fields with
  | nil =>
      cases fields with
      | nil => cases hfield
      | cons f' fields =>
          cases hfield
          simp
  | cons item items ih =>
      cases fields with
      | nil => cases hfield
      | cons f' fields =>
          rw [List.length_cons, List.getElem?_cons_succ] at hfield
          rw [List.cons_append, List.zip_cons_cons, List.zip_cons_cons, ih hfield,
            List.cons_append]

theorem nodup_zip (k : Kind) (items : List Value) :
    ((k.fields.zip items).map Prod.fst).Nodup := by
  rw [List.zip_eq_zip_take_min, List.map_fst_zip (by simp)]
  exact (fields_nodup k).sublist (List.take_sublist ..)

/-- An item that names a kind is no child. -/
theorem decodeChildList_of_tag {tag : Value} {k : Kind} (hk : kindOf tag = .ok k)
    (items : List Value) :
    (decodeChildList (tag :: items) : Except Mismatch (List (Option (Expr Op)))).toOption =
      none := by
  rw [toOption_decodeChildList_cons]
  cases tag with
  | string | number =>
      rw [if_neg (by simp [isNull]), decode]
      · rfl
      all_goals simp
  | null | bool | array | object => cases hk

theorem namesKind_array (tag : Value) (items items' : List Value) :
    namesKind (.array (tag :: items)) = namesKind (.array (tag :: items')) := by
  cases tag <;> rfl

/-- A default may be written out at the end of an array. -/
theorem interchangeable_concat {tag : Value} {k : Kind} (hk : kindOf tag = .ok k)
    {items : List Value} {f : Field} {v : Value} (hfield : k.fields[items.length]? = some f)
    (hdefault : f.default? = some v) :
    Interchangeable Op (.array (tag :: (items ++ [v]))) (.array (tag :: items)) := by
  have hnode : (node? k (k.fields.zip (items ++ [v])) {} : Option (Expr Op)) =
      node? k (k.fields.zip items) {} := by
    apply node?_written k (by rw [zip_concat hfield]) (nodup_zip k _)
    intro p hp
    cases List.mem_singleton.1 hp
    exact hdefault
  have haccepts : k.Accepts (items ++ [v]).length ↔ k.Accepts items.length := by
    rw [List.length_append, List.length_singleton]
    exact accepts_succ hfield hdefault
  apply Interchangeable.arrays
  · exact namesKind_array tag _ _
  · rw [decode_array_node?, decode_array_node?, hk]
    simp only [Except.toOption, Option.bind_some, hnode]
    exact if_congr haccepts rfl rfl
  · rw [decodeChildList_of_tag hk, decodeChildList_of_tag hk]

/-- Values at the end of an array of a kind that are defaults of their fields; as many
items stand in front of them, besides the name of the kind. -/
def TrailsDefaults (k : Kind) (length : Nat) (trailing : List Value) : Prop :=
  ∀ i v, trailing[i]? = some v → ∃ f, k.fields[length + i]? = some f ∧ f.default? = some v

theorem interchangeable_append {tag : Value} {k : Kind} (hk : kindOf tag = .ok k)
    {items trailing : List Value} (h : TrailsDefaults k items.length trailing) :
    Interchangeable Op (.array (tag :: (items ++ trailing))) (.array (tag :: items)) := by
  -- the first default joins the items in front of the others
  induction trailing generalizing items with
  | nil =>
      rw [List.append_nil]
      exact .same _
  | cons v trailing ih =>
      obtain ⟨f, hfield, hdefault⟩ := h 0 v rfl
      have hrest : TrailsDefaults k (items ++ [v]).length trailing := by
        intro i v' hv'
        rw [List.length_append, List.length_singleton, Nat.add_assoc, Nat.add_comm 1]
        exact h (i + 1) v' hv'
      have happend := ih hrest
      rw [List.append_assoc, List.singleton_append] at happend
      exact happend.trans (interchangeable_concat hk hfield hdefault)

theorem decodeChildList_of_interchangeable {items items' : List Value}
    (h : List.Forall₂ (Interchangeable Op) items items') :
    (decodeChildList items : Except Mismatch (List (Option (Expr Op)))).toOption =
      (decodeChildList items').toOption := by
  induction h with
  | nil => rfl
  | @cons v v' items items' hv _ ih =>
      rw [decodeChildList_cons, decodeChildList_cons, toOption_bind, toOption_bind, hv.operand]
      simp only [toOption_bind, ih]

theorem zip_of_interchangeable {items items' : List Value}
    (h : List.Forall₂ (Interchangeable Op) items items') (fields : List Field) :
    List.Forall₂ (fun p p' => p.1 = p'.1 ∧ Interchangeable Op p.2 p'.2)
      (fields.zip items) (fields.zip items') := by
  induction h generalizing fields with
  | nil =>
      rw [List.zip_nil_right]
      exact .nil
  | @cons v v' items items' hv _ ih =>
      cases fields with
      | nil => exact .nil
      | cons f fields => exact .cons ⟨rfl, hv⟩ (ih fields)

theorem interchangeable_items {items items' : List Value}
    (h : List.Forall₂ (Interchangeable Op) items items') :
    Interchangeable Op (.array items) (.array items') := by
  have hchildren := decodeChildList_of_interchangeable h
  cases h with
  | nil => exact .same _
  | @cons tag tag' items items' htag hitems =>
      refine Interchangeable.arrays ?_ ?_ hchildren
      · cases htag with
        | same tag => exact namesKind_array tag items items'
        | arrays | objects => rfl
      · rw [decode_array_node?, decode_array_node?, htag.kindOf, hitems.length_eq]
        congr 1
        funext k
        rw [node?_interchangeable k (zip_of_interchangeable hitems k.fields)]

end Interchange
end FilterLang
