import FilterLang.Proofs.OutermostNodes
import Mathlib.Data.List.Basic
import Mathlib.Data.List.Nodup

/-!
# Drafts filled in any order

What a field of a node holds is read without looking at the draft, and is then set in
it.  So fields that are all different may be set in any order, and the order of the
members of an object does not matter.

Two drafts agree if they differ only in whether a field holds its default or nothing;
such drafts are assembled into the same node.  So defaults may be written out.
-/

namespace FilterLang
namespace Interchange

open Json (Value toOption_map toOption_bind)

variable {Op : Type}

/-! ## Entries -/

/-- What one field of a node holds. -/
inductive Entry (Op : Type) where
  | id (value : String)
  | op (value : Op)
  | children (values : List (Option (Expr Op)))
  | lhs (value : Option (Expr Op))
  | rhs (value : Option (Expr Op))
  | rhs2 (value : Option (Expr Op))
  | operand (value : Option (Expr Op))
  | name (value : String)
  | number (value : Binary64)
  | boolean (value : Bool)
  | string (value : String)
  | time (value : Calendar.Moment)

def Entry.field : Entry Op → Field
  | .id _ => .id
  | .op _ => .op
  | .children _ => .children
  | .lhs _ => .lhs
  | .rhs _ => .rhs
  | .rhs2 _ => .rhs2
  | .operand _ => .operand
  | .name _ => .name
  | .number _ | .boolean _ | .string _ | .time _ => .value

def Draft.set (draft : Draft Op) : Entry Op → Draft Op
  | .id value => { draft with id := some value }
  | .op value => { draft with op := some value }
  | .children values => { draft with children := some values }
  | .lhs value => { draft with lhs := some value }
  | .rhs value => { draft with rhs := some value }
  | .rhs2 value => { draft with rhs2 := some value }
  | .operand value => { draft with operand := some value }
  | .name value => { draft with name := some value }
  | .number value => { draft with number := some value }
  | .boolean value => { draft with boolean := some value }
  | .string value => { draft with string := some value }
  | .time value => { draft with time := some value }

theorem Draft.set_comm (draft : Draft Op) {e e' : Entry Op} (h : e.field ≠ e'.field) :
    (draft.set e).set e' = (draft.set e').set e := by
  -- entries of different fields change different components
  cases e <;> cases e' <;> first | rfl | exact absurd rfl h

/-! ## Drafts that agree -/

/-- What stands for a field that is left out. -/
def Field.default? : Field → Option Value
  | .id => some (.string "")
  | .children => some (.array [])
  | .lhs | .rhs | .rhs2 | .operand => some .null
  | .op | .name | .value => none

/-- The drafts differ only in defaults. -/
structure Draft.Agrees (draft draft' : Draft Op) : Prop where
  id : draft.id.getD "" = draft'.id.getD ""
  op : draft.op = draft'.op
  children : draft.children.getD [] = draft'.children.getD []
  lhs : draft.lhs.join = draft'.lhs.join
  rhs : draft.rhs.join = draft'.rhs.join
  rhs2 : draft.rhs2.join = draft'.rhs2.join
  operand : draft.operand.join = draft'.operand.join
  name : draft.name = draft'.name
  number : draft.number = draft'.number
  boolean : draft.boolean = draft'.boolean
  string : draft.string = draft'.string
  time : draft.time = draft'.time

theorem Draft.Agrees.refl (draft : Draft Op) : draft.Agrees draft := by
  constructor <;> rfl

theorem Draft.Agrees.set {draft draft' : Draft Op} (h : draft.Agrees draft') (e : Entry Op) :
    (draft.set e).Agrees (draft'.set e) := by
  cases e with
  | id => exact { h with id := rfl }
  | op => exact { h with op := rfl }
  | children => exact { h with children := rfl }
  | lhs => exact { h with lhs := rfl }
  | rhs => exact { h with rhs := rfl }
  | rhs2 => exact { h with rhs2 := rfl }
  | operand => exact { h with operand := rfl }
  | name => exact { h with name := rfl }
  | number => exact { h with number := rfl }
  | boolean => exact { h with boolean := rfl }
  | string => exact { h with string := rfl }
  | time => exact { h with time := rfl }

theorem Draft.Agrees.assemble {draft draft' : Draft Op} (h : draft.Agrees draft') (k : Kind) :
    draft.assemble k = draft'.assemble k := by
  cases k <;>
    simp only [Draft.assemble, h.id, h.op, h.children, h.lhs, h.rhs, h.rhs2, h.operand, h.name,
      h.number, h.boolean, h.string, h.time]

/-! ## Values under fields -/

variable [OperatorForm Op]

/-- What a value gives under a field of a kind. -/
def entryOf? (k : Kind) (f : Field) (v : Value) : Option (Entry Op) :=
  match f with
  | .id => (readText v).toOption.map .id
  | .op => (readText v).toOption.bind fun text => (OperatorForm.read text).toOption.map .op
  | .children => ((subtrees v).children ()).toOption.map .children
  | .lhs => ((subtrees v).operand ()).toOption.map .lhs
  | .rhs => ((subtrees v).operand ()).toOption.map .rhs
  | .rhs2 => ((subtrees v).operand ()).toOption.map .rhs2
  | .operand => ((subtrees v).operand ()).toOption.map .operand
  | .name => (readText v).toOption.map .name
  | .value =>
      match k with
      | .number => (readNumber v).toOption.map .number
      | .boolean => (readBool v).toOption.map .boolean
      | .time => (readTime v).toOption.map .time
      | _ => (readText v).toOption.map .string

theorem toOption_fill (k : Kind) (f : Field) (v : Value) (draft : Draft Op) :
    (draft.fill k f v (subtrees v)).toOption = (entryOf? k f v).map draft.set := by
  cases f with
  | id | name =>
      rw [Draft.fill, toOption_bind, entryOf?]
      cases readText v <;> rfl
  | op =>
      rw [Draft.fill, toOption_bind, entryOf?]
      cases readText v with
      | error e => rfl
      | ok text =>
          change (OperatorForm.read text >>= _).toOption =
            Option.map draft.set ((OperatorForm.read text).toOption.map .op)
          rw [toOption_bind]
          cases (OperatorForm.read text : Except Mismatch Op) <;> rfl
  | children =>
      rw [Draft.fill, toOption_bind, entryOf?]
      cases (subtrees v : Subtrees Op).children () <;> rfl
  | lhs | rhs | rhs2 | operand =>
      rw [Draft.fill, toOption_bind, entryOf?]
      cases (subtrees v : Subtrees Op).operand () <;> rfl
  | value =>
      cases k with
      | number =>
          rw [Draft.fill, toOption_bind, entryOf?]
          cases readNumber v <;> rfl
      | boolean =>
          rw [Draft.fill, toOption_bind, entryOf?]
          cases readBool v <;> rfl
      | time =>
          rw [Draft.fill, toOption_bind, entryOf?]
          cases readTime v <;> rfl
      | string | group | binary | unary | ternary | reference =>
          rw [Draft.fill, toOption_bind, entryOf?]
          · cases readText v <;> rfl
          all_goals simp

theorem field_of_entryOf? {k : Kind} {f : Field} {v : Value} {e : Entry Op}
    (h : entryOf? k f v = some e) : e.field = f := by
  cases f with
  | id | children | lhs | rhs | rhs2 | operand | name =>
      obtain ⟨a, -, rfl⟩ := Option.map_eq_some_iff.1 h
      rfl
  | op =>
      obtain ⟨text, -, hread⟩ := Option.bind_eq_some_iff.1 h
      obtain ⟨op, -, rfl⟩ := Option.map_eq_some_iff.1 hread
      rfl
  | value =>
      cases k with
      | number | boolean | time | string | group | binary | unary | ternary | reference =>
          obtain ⟨a, -, rfl⟩ := Option.map_eq_some_iff.1 h
          rfl

/-! ## Nodes of fields -/

/-- A draft with more fields set. -/
def fillAll? (k : Kind) (fields : List (Field × Value)) (draft : Draft Op) : Option (Draft Op) :=
  fields.foldlM (fun draft p => (entryOf? k p.1 p.2).map draft.set) draft

def node? (k : Kind) (fields : List (Field × Value)) (draft : Draft Op) : Option (Expr Op) :=
  (fillAll? k fields draft).bind fun draft => (draft.assemble k).toOption

theorem fillAll?_cons (k : Kind) (p : Field × Value) (fields : List (Field × Value))
    (draft : Draft Op) :
    fillAll? k (p :: fields) draft =
      (entryOf? k p.1 p.2).bind fun e => fillAll? k fields (draft.set e) := by
  rw [fillAll?, List.foldlM_cons]
  cases (entryOf? k p.1 p.2 : Option (Entry Op)) <;> rfl

theorem node?_cons (k : Kind) (p : Field × Value) (fields : List (Field × Value))
    (draft : Draft Op) :
    node? k (p :: fields) draft =
      (entryOf? k p.1 p.2).bind fun e => node? k fields (draft.set e) := by
  rw [node?, fillAll?_cons]
  cases (entryOf? k p.1 p.2 : Option (Entry Op)) <;> rfl

/-- Fields that are all different are set in any order. -/
theorem fillAll?_perm (k : Kind) {fields fields' : List (Field × Value)}
    (hperm : fields.Perm fields') (hdistinct : (fields.map Prod.fst).Nodup) (draft : Draft Op) :
    fillAll? k fields draft = fillAll? k fields' draft := by
  unfold fillAll?
  rw [List.foldlM_eq_foldl, List.foldlM_eq_foldl]
  apply hperm.foldl_eq'
  intro p hp q hq draft?
  -- a step that fails fails in either order, and two that succeed set different fields
  by_cases hpq : p = q
  · rw [hpq]
  have hfield : p.1 ≠ q.1 := fun h => hpq (List.inj_on_of_nodup_map hdistinct hp hq h)
  cases draft? with
  | none => rfl
  | some draft =>
      cases he : (entryOf? k p.1 p.2 : Option (Entry Op)) with
      | none => cases (entryOf? k q.1 q.2 : Option (Entry Op)) <;> rfl
      | some e =>
          cases he' : (entryOf? k q.1 q.2 : Option (Entry Op)) with
          | none => rfl
          | some e' =>
              have hne : e.field ≠ e'.field := by
                rw [field_of_entryOf? he, field_of_entryOf? he']
                exact hfield
              exact congrArg some (draft.set_comm hne)

theorem node?_perm (k : Kind) {fields fields' : List (Field × Value)}
    (hperm : fields.Perm fields') (hdistinct : (fields.map Prod.fst).Nodup) (draft : Draft Op) :
    node? k fields draft = node? k fields' draft := by
  rw [node?, fillAll?_perm k hperm hdistinct, ← node?]

/-! ## Defaults written out -/

theorem exists_entryOf?_default (k : Kind) {f : Field} {v : Value} (h : f.default? = some v) :
    ∃ e : Entry Op, entryOf? k f v = some e ∧
      ∀ draft : Draft Op, ({} : Draft Op).Agrees draft → ({} : Draft Op).Agrees (draft.set e) := by
  cases f with
  | id =>
      cases h
      exact ⟨.id "", rfl, fun draft hdraft => { hdraft with id := rfl }⟩
  | children =>
      cases h
      refine ⟨.children [], ?_, fun draft hdraft => { hdraft with children := rfl }⟩
      have hchildren : (subtrees (.array []) : Subtrees Op).children () = decodeChildList [] := rfl
      rw [entryOf?, hchildren, decodeChildList]
      rfl
  | lhs =>
      cases h
      exact ⟨.lhs none, rfl, fun draft hdraft => { hdraft with lhs := rfl }⟩
  | rhs =>
      cases h
      exact ⟨.rhs none, rfl, fun draft hdraft => { hdraft with rhs := rfl }⟩
  | rhs2 =>
      cases h
      exact ⟨.rhs2 none, rfl, fun draft hdraft => { hdraft with rhs2 := rfl }⟩
  | operand =>
      cases h
      exact ⟨.operand none, rfl, fun draft hdraft => { hdraft with operand := rfl }⟩
  | op | name | value => cases h

theorem node?_agrees (k : Kind) (fields : List (Field × Value)) {draft draft' : Draft Op}
    (h : draft.Agrees draft') : node? k fields draft = node? k fields draft' := by
  induction fields generalizing draft draft' with
  | nil =>
      change (draft.assemble k).toOption = (draft'.assemble k).toOption
      rw [h.assemble]
  | cons p fields ih =>
      rw [node?_cons, node?_cons]
      simp only [fun e => ih (h.set e)]

/-- Defaults that are set first are as good as none. -/
theorem node?_defaults (k : Kind) {defaults : List (Field × Value)}
    (hdefaults : ∀ p ∈ defaults, p.1.default? = some p.2) (fields : List (Field × Value))
    {draft : Draft Op} (hdraft : ({} : Draft Op).Agrees draft) :
    node? k (defaults ++ fields) draft = node? k fields {} := by
  induction defaults generalizing draft with
  | nil => exact (node?_agrees k fields hdraft).symm
  | cons p defaults ih =>
      rw [List.forall_mem_cons] at hdefaults
      obtain ⟨e, he, hset⟩ := @exists_entryOf?_default Op _ k _ _ hdefaults.1
      rw [List.cons_append, node?_cons, he]
      exact ih hdefaults.2 (hset draft hdraft)

/-- Defaults may be written out, anywhere among the other fields. -/
theorem node?_written (k : Kind) {fields common defaults : List (Field × Value)}
    (hperm : fields.Perm (common ++ defaults)) (hdistinct : (fields.map Prod.fst).Nodup)
    (hdefaults : ∀ p ∈ defaults, p.1.default? = some p.2) :
    (node? k fields {} : Option (Expr Op)) = node? k common {} := by
  rw [node?_perm k (hperm.trans List.perm_append_comm) hdistinct,
    node?_defaults k hdefaults common (Draft.Agrees.refl {})]

/-! ## Members and items as fields -/

/-- The members that the kind knows, each with its field. -/
def known (k : Kind) (members : List (String × Value)) : List (Field × Value) :=
  members.filterMap fun m => (k.field? m.1).map fun f => (f, m.2)

theorem known_cons_none {k : Kind} {m : String × Value} (h : k.field? m.1 = none)
    (members : List (String × Value)) : known k (m :: members) = known k members := by
  rw [known, List.filterMap_cons, h]
  rfl

theorem known_cons_some {k : Kind} {m : String × Value} {f : Field} (h : k.field? m.1 = some f)
    (members : List (String × Value)) : known k (m :: members) = (f, m.2) :: known k members := by
  rw [known, List.filterMap_cons, h]
  rfl

theorem key_of_field? {k : Kind} {name : String} {f : Field} (h : k.field? name = some f) :
    f.key = name := by
  simpa using List.find?_some h

theorem nodup_known (k : Kind) {members : List (String × Value)}
    (h : (members.map Prod.fst).Nodup) : ((known k members).map Prod.fst).Nodup := by
  have hfields : (known k members).map Prod.fst = (members.map Prod.fst).filterMap k.field? := by
    rw [known, List.map_filterMap, List.filterMap_map]
    congr 1
    funext m
    simp [Option.map_map, Function.comp_def]
  rw [hfields]
  apply h.filterMap
  intro name name' f hname hname'
  rw [← key_of_field? hname, ← key_of_field? hname']

theorem toOption_decodeMembers (k : Kind) {members : List (String × Value)} {seen : List Field}
    (hdistinct : ((known k members).map Prod.fst).Nodup)
    (hseen : ∀ p ∈ known k members, p.1 ∉ seen) (draft : Draft Op) :
    (decodeMembers k seen members draft).toOption = fillAll? k (known k members) draft := by
  induction members generalizing seen draft with
  | nil =>
      rw [decodeMembers]
      rfl
  | cons m members ih =>
      rw [decodeMembers]
      cases hfield : k.field? m.1 with
      | none =>
          rw [known_cons_none hfield] at hdistinct hseen ⊢
          exact ih hdistinct hseen draft
      | some f =>
          rw [known_cons_some hfield] at hdistinct hseen ⊢
          rw [List.map_cons, List.nodup_cons] at hdistinct
          rw [List.forall_mem_cons] at hseen
          have hseen' : ∀ p ∈ known k members, p.1 ∉ f :: seen := by
            intro p hp hmem
            rcases List.mem_cons.1 hmem with hf | hold
            · exact hdistinct.1 (List.mem_map.2 ⟨p, hp, hf⟩)
            · exact hseen.2 p hp hold
          dsimp only
          rw [if_neg hseen.1, fillAll?_cons]
          change (draft.fill k f m.2 (subtrees m.2) >>= _).toOption = _
          rw [toOption_bind, toOption_fill]
          cases (entryOf? k f m.2 : Option (Entry Op)) with
          | none => rfl
          | some e => exact ih hdistinct.2 hseen' (draft.set e)

theorem toOption_decodeItems (k : Kind) (fields : List Field) (items : List Value)
    (draft : Draft Op) :
    (decodeItems k fields items draft).toOption = fillAll? k (fields.zip items) draft := by
  induction fields generalizing items draft with
  | nil =>
      rw [decodeItems]
      · rfl
      · simp
  | cons f fields ih =>
      cases items with
      | nil =>
          rw [decodeItems]
          · rfl
          · simp
      | cons v items =>
          rw [decodeItems, List.zip_cons_cons, fillAll?_cons]
          change (draft.fill k f v (subtrees v) >>= _).toOption = _
          rw [toOption_bind, toOption_fill]
          cases (entryOf? k f v : Option (Entry Op)) with
          | none => rfl
          | some e => exact ih items (draft.set e)

end Interchange
end FilterLang
