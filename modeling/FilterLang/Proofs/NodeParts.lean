import FilterLang.Proofs.BracketLevels
import FilterLang.Proofs.FilledDrafts

/-!
# Where the parts of a node come from

A node is assembled from a draft, and each entry of the draft was read from the value
of one field.  So whatever a node holds was read from one of the values under it: its
operator from a string, a number from a number, an operand from a value or from an
item of one.  What these values are taken from, an object or an array, inside a tree
or outermost, makes no difference.
-/

namespace FilterLang
namespace Interchange

open Json (Value)

variable {Op : Type}

/-! ## What a draft holds -/

/-- The entry has been set in the draft. -/
def Draft.Holds (draft : Draft Op) : Entry Op → Prop
  | .id value => draft.id = some value
  | .op value => draft.op = some value
  | .children values => draft.children = some values
  | .lhs value => draft.lhs = some value
  | .rhs value => draft.rhs = some value
  | .rhs2 value => draft.rhs2 = some value
  | .operand value => draft.operand = some value
  | .name value => draft.name = some value
  | .number value => draft.number = some value
  | .boolean value => draft.boolean = some value
  | .string value => draft.string = some value
  | .time value => draft.time = some value

theorem Draft.not_holds_empty (entry : Entry Op) : ¬ ({} : Draft Op).Holds entry := by
  intro h
  cases entry with
  | _ => cases h

theorem Draft.holds_set {draft : Draft Op} {entry entry' : Entry Op}
    (h : (draft.set entry).Holds entry') : entry' = entry ∨ draft.Holds entry' := by
  -- an entry changes the component of its own field only
  cases entry <;> cases entry' <;> first | exact Or.inr h | (cases h; exact Or.inl rfl)

/-- The trees that an entry holds. -/
def Entry.trees : Entry Op → List (Expr Op)
  | .children values => values.filterMap fun child => child
  | .lhs value | .rhs value | .rhs2 value | .operand value => value.toList
  | _ => []

/-- The pairs of brackets between a node and the trees in one of its entries. -/
def Entry.brackets : Entry Op → Nat
  | .children _ => 2
  | _ => 1

/-- All that a node holds was held by the draft that it was assembled from. -/
structure Draft.Assembles (draft : Draft Op) (e : Expr Op) : Prop where
  op : ∀ op, e.operator? = some op → draft.Holds (.op op)
  operand : ∀ operand ∈ e.operands,
    ∃ entry, draft.Holds entry ∧ operand ∈ entry.trees ∧ entry.brackets = e.brackets
  children : ∀ id children, e = .group id children →
    children = [] ∨ draft.Holds (.children children)
  number : ∀ id value, e = .number id value → draft.Holds (.number value)
  time : ∀ id value, e = .time id value → draft.Holds (.time value)

theorem require_eq_ok {α : Type} {f : Field} {a? : Option α} {a : α}
    (h : require f a? = .ok a) : a? = some a := by
  cases a? with
  | none => cases h
  | some b =>
      cases h
      rfl

theorem mem_toList_join {α : Type} {a?? : Option (Option α)} {a : α} (h : a ∈ a??.join.toList) :
    a?? = some (some a) := by
  rw [Option.mem_toList, Option.join_eq_some_iff] at h
  exact h

/-- An operand that was assembled was held as the entry of its field. -/
theorem Draft.exists_holds_operand {draft : Draft Op} {e : Expr Op}
    {held : Option (Option (Expr Op))} (entry : Option (Expr Op) → Entry Op)
    (hholds : ∀ value, held = some value → draft.Holds (entry value))
    (htrees : ∀ value, (entry value).trees = value.toList ∧ (entry value).brackets = 1)
    (hmem : e ∈ held.join.toList) :
    ∃ entry, draft.Holds entry ∧ e ∈ entry.trees ∧ entry.brackets = 1 := by
  refine ⟨entry (some e), hholds _ (mem_toList_join hmem), ?_, (htrees _).2⟩
  rw [(htrees _).1]
  exact List.mem_singleton_self e

theorem Draft.assembles {k : Kind} {draft : Draft Op} {e : Expr Op}
    (h : draft.assemble k = .ok e) : draft.Assembles e := by
  have hlhs := fun e => @Draft.exists_holds_operand Op draft e draft.lhs .lhs
    (fun _ hlhs => hlhs) fun _ => ⟨rfl, rfl⟩
  have hrhs := fun e => @Draft.exists_holds_operand Op draft e draft.rhs .rhs
    (fun _ hrhs => hrhs) fun _ => ⟨rfl, rfl⟩
  have hrhs2 := fun e => @Draft.exists_holds_operand Op draft e draft.rhs2 .rhs2
    (fun _ hrhs2 => hrhs2) fun _ => ⟨rfl, rfl⟩
  have hoperand := fun e => @Draft.exists_holds_operand Op draft e draft.operand .operand
    (fun _ hoperand => hoperand) fun _ => ⟨rfl, rfl⟩
  cases k with
  | group =>
      cases h
      have hchildren : draft.children.getD [] = [] ∨
          draft.Holds (.children (draft.children.getD [])) := by
        cases hheld : draft.children with
        | none => exact Or.inl rfl
        | some children => exact Or.inr hheld
      refine ⟨by rintro op ⟨⟩, ?_, ?_, by rintro id value ⟨⟩, by rintro id value ⟨⟩⟩
      · intro operand hmem
        refine ⟨_, hchildren.resolve_left ?_, hmem, rfl⟩
        intro hnil
        rw [Expr.operands, hnil] at hmem
        cases hmem
      · rintro id children ⟨⟩
        exact hchildren
  | binary =>
      obtain ⟨op, hop, heq⟩ := bind_eq_ok.1 h
      cases heq
      refine ⟨?_, ?_, by rintro id children ⟨⟩, by rintro id value ⟨⟩, by rintro id value ⟨⟩⟩
      · rintro op' ⟨⟩
        exact require_eq_ok hop
      · intro operand hmem
        exact (List.mem_append.1 hmem).elim (hlhs operand) (hrhs operand)
  | unary =>
      obtain ⟨op, hop, heq⟩ := bind_eq_ok.1 h
      cases heq
      refine ⟨?_, hoperand, by rintro id children ⟨⟩, by rintro id value ⟨⟩,
        by rintro id value ⟨⟩⟩
      rintro op' ⟨⟩
      exact require_eq_ok hop
  | ternary =>
      obtain ⟨op, hop, heq⟩ := bind_eq_ok.1 h
      cases heq
      refine ⟨?_, ?_, by rintro id children ⟨⟩, by rintro id value ⟨⟩, by rintro id value ⟨⟩⟩
      · rintro op' ⟨⟩
        exact require_eq_ok hop
      · intro operand hmem
        rcases List.mem_append.1 hmem with hfirst | hlast
        · exact (List.mem_append.1 hfirst).elim (hlhs operand) (hrhs operand)
        · exact hrhs2 operand hlast
  | number =>
      obtain ⟨value, hvalue, heq⟩ := bind_eq_ok.1 h
      cases heq
      refine ⟨by rintro op ⟨⟩, by rintro operand ⟨⟩, by rintro id children ⟨⟩, ?_,
        by rintro id value ⟨⟩⟩
      rintro id value' ⟨⟩
      exact require_eq_ok hvalue
  | time =>
      obtain ⟨value, hvalue, heq⟩ := bind_eq_ok.1 h
      cases heq
      refine ⟨by rintro op ⟨⟩, by rintro operand ⟨⟩, by rintro id children ⟨⟩,
        by rintro id value ⟨⟩, ?_⟩
      rintro id value' ⟨⟩
      exact require_eq_ok hvalue
  | reference | boolean | string =>
      obtain ⟨value, -, heq⟩ := bind_eq_ok.1 h
      cases heq
      exact ⟨by rintro op ⟨⟩, by rintro operand ⟨⟩, by rintro id children ⟨⟩,
        by rintro id value ⟨⟩, by rintro id value ⟨⟩⟩

def Body.values : Body → List Value
  | .members named => named.map Prod.snd
  | .items listed => listed

/-! ## What was read into a draft -/

variable [OperatorForm Op]

/-- Each entry of the draft was read from one of the values. -/
def FilledFrom (k : Kind) (values : List Value) (draft : Draft Op) : Prop :=
  ∀ entry, draft.Holds entry → ∃ f, ∃ v ∈ values, entryOf? k f v = some entry

variable {k : Kind} {values : List Value} {draft draft' : Draft Op}

theorem filledFrom_empty (k : Kind) (values : List Value) :
    FilledFrom k values ({} : Draft Op) :=
  fun entry h => absurd h (Draft.not_holds_empty entry)

theorem FilledFrom.fill (hdraft : FilledFrom k values draft) {f : Field} {v : Value}
    (hv : v ∈ values) (h : draft.fill k f v (subtrees v) = .ok draft') :
    FilledFrom k values draft' := by
  rw [← Json.toOption_eq_some, toOption_fill] at h
  obtain ⟨entry, hentry, rfl⟩ := Option.map_eq_some_iff.1 h
  intro entry' hholds
  rcases Draft.holds_set hholds with rfl | hbefore
  · exact ⟨f, v, hv, hentry⟩
  · exact hdraft entry' hbefore

theorem FilledFrom.decodeMembers {seen : List Field} {members : List (String × Value)}
    (hdraft : FilledFrom k values draft) (hmembers : ∀ m ∈ members, m.2 ∈ values)
    (h : decodeMembers k seen members draft = .ok draft') : FilledFrom k values draft' := by
  induction members generalizing seen draft with
  | nil =>
      rw [Interchange.decodeMembers] at h
      cases h
      exact hdraft
  | cons m members ih =>
      rw [List.forall_mem_cons] at hmembers
      rw [Interchange.decodeMembers] at h
      split at h
      next => exact ih hdraft hmembers.2 h
      next =>
        split at h
        next => cases h
        next =>
          obtain ⟨filled, hfill, hrest⟩ := bind_eq_ok.1 h
          exact ih (hdraft.fill hmembers.1 hfill) hmembers.2 hrest

theorem FilledFrom.decodeItems {fields : List Field} {items : List Value}
    (hdraft : FilledFrom k values draft) (hitems : ∀ item ∈ items, item ∈ values)
    (h : decodeItems k fields items draft = .ok draft') : FilledFrom k values draft' := by
  induction items generalizing fields draft with
  | nil =>
      cases fields with
      | nil | cons =>
          rw [Interchange.decodeItems] at h
          · cases h
            exact hdraft
          · simp
  | cons item items ih =>
      rw [List.forall_mem_cons] at hitems
      cases fields with
      | nil =>
          rw [Interchange.decodeItems] at h
          · cases h
            exact hdraft
          · simp
      | cons f fields =>
          rw [Interchange.decodeItems] at h
          obtain ⟨filled, hfill, hrest⟩ := bind_eq_ok.1 h
          exact ih (hdraft.fill hitems.1 hfill) hitems.2 hrest

/-! ## Nodes -/

/-- The value of a field holds that of a tree, as itself or among its items, behind one
or two pairs of brackets of the node. -/
inductive HeldIn : Value → Nat → Value → Prop
  | self (v : Value) : HeldIn v 1 v
  | item {items : List Value} {item : Value} (h : item ∈ items) : HeldIn (.array items) 2 item

/-- All that the node holds was read from one of the values. -/
structure DecodedFrom (values : List Value) (e : Expr Op) : Prop where
  op : ∀ op, e.operator? = some op → ∃ text, OperatorForm.read text = .ok op
  operand : ∀ operand ∈ e.operands,
    ∃ v ∈ values, ∃ held, HeldIn v e.brackets held ∧ decode held = .ok operand
  children : ∀ id children, e = .group id children →
    children = [] ∨ ∃ items, .array items ∈ values
  number : ∀ id value, e = .number id value → ∃ n, .number n ∈ values ∧ n.toBinary64 = value
  time : ∀ id value, e = .time id value →
    ∃ text, Calendar.Moment.ofStamp text = .ok value

theorem decode_of_operand {v : Value} {e : Expr Op}
    (h : (subtrees v : Subtrees Op).operand () = .ok (some e)) : decode v = .ok e := by
  have hoperand : (if isNull v then .ok none else (decode v).map some) = .ok (some e) := h
  split at hoperand
  next => cases hoperand
  next =>
    obtain ⟨e', hdecode, heq⟩ := Json.map_eq_ok hoperand
    cases heq
    exact hdecode

theorem exists_decode_of_children {items : List Value} {children : List (Option (Expr Op))}
    (h : decodeChildList items = .ok children) {e : Expr Op} (he : some e ∈ children) :
    ∃ item ∈ items, decode item = .ok e := by
  induction items generalizing children with
  | nil =>
      rw [decodeChildList] at h
      cases h
      cases he
  | cons item items ih =>
      rw [decodeChildList_cons] at h
      obtain ⟨first, hfirst, h⟩ := bind_eq_ok.1 h
      obtain ⟨rest, hrest, heq⟩ := bind_eq_ok.1 h
      cases heq
      rcases List.mem_cons.1 he with hhead | htail
      · rw [← hhead] at hfirst
        exact ⟨item, List.mem_cons_self, decode_of_operand hfirst⟩
      · obtain ⟨item', hitem', hdecode⟩ := ih hrest htail
        exact ⟨item', List.mem_cons_of_mem _ hitem', hdecode⟩

theorem exists_items_of_children {v : Value} {children : List (Option (Expr Op))}
    (h : (subtrees v : Subtrees Op).children () = .ok children) :
    ∃ items, v = .array items ∧ decodeChildList items = .ok children := by
  have hchildren : decodeChildren v = .ok children := h
  cases v with
  | array items =>
      rw [decodeChildren] at hchildren
      exact ⟨items, rfl, hchildren⟩
  | null | bool | number | string | object =>
      rw [decodeChildren] at hchildren
      · cases hchildren
      · simp

section

variable {f : Field} {v : Value} {entry : Entry Op}

/-- The trees in an entry were decoded from what the value of its field holds. -/
theorem exists_heldIn_of_entryOf? (h : entryOf? k f v = some entry) {e : Expr Op}
    (he : e ∈ entry.trees) : ∃ held, HeldIn v entry.brackets held ∧ decode held = .ok e := by
  cases f with
  | children =>
      obtain ⟨children, hchildren, rfl⟩ := Option.map_eq_some_iff.1 h
      obtain ⟨items, rfl, hitems⟩ := exists_items_of_children (Json.toOption_eq_some.1 hchildren)
      obtain ⟨child, hchild, heq⟩ := List.mem_filterMap.1 he
      rw [heq] at hchild
      obtain ⟨item, hitem, hdecode⟩ := exists_decode_of_children hitems hchild
      exact ⟨item, .item hitem, hdecode⟩
  | lhs | rhs | rhs2 | operand =>
      obtain ⟨value, hvalue, rfl⟩ := Option.map_eq_some_iff.1 h
      obtain rfl : value = some e := Option.mem_toList.1 he
      exact ⟨v, .self v, decode_of_operand (Json.toOption_eq_some.1 hvalue)⟩
  | id | name =>
      obtain ⟨value, -, rfl⟩ := Option.map_eq_some_iff.1 h
      cases he
  | op =>
      obtain ⟨text, -, hread⟩ := Option.bind_eq_some_iff.1 h
      obtain ⟨op, -, rfl⟩ := Option.map_eq_some_iff.1 hread
      cases he
  | value =>
      cases k with
      | number | boolean | time | string | group | binary | unary | ternary | reference =>
          obtain ⟨value, -, rfl⟩ := Option.map_eq_some_iff.1 h
          cases he

theorem exists_read_of_entryOf? {op : Op} (h : entryOf? k f v = some (.op op)) :
    ∃ text, OperatorForm.read text = .ok op := by
  obtain rfl : Field.op = f := field_of_entryOf? h
  obtain ⟨text, -, hread⟩ := Option.bind_eq_some_iff.1 h
  obtain ⟨op', hop, heq⟩ := Option.map_eq_some_iff.1 hread
  cases heq
  exact ⟨text, Json.toOption_eq_some.1 hop⟩

theorem exists_items_of_entryOf? {children : List (Option (Expr Op))}
    (h : entryOf? k f v = some (.children children)) : ∃ items, v = .array items := by
  obtain rfl : Field.children = f := field_of_entryOf? h
  obtain ⟨children', hchildren, -⟩ := Option.map_eq_some_iff.1 h
  obtain ⟨items, rfl, -⟩ := exists_items_of_children (Json.toOption_eq_some.1 hchildren)
  exact ⟨items, rfl⟩

theorem exists_number_of_entryOf? {value : Binary64}
    (h : (entryOf? k f v : Option (Entry Op)) = some (.number value)) :
    ∃ n, v = .number n ∧ n.toBinary64 = value := by
  obtain rfl : Field.value = f := field_of_entryOf? h
  cases k with
  | number =>
      obtain ⟨value', hvalue, heq⟩ := Option.map_eq_some_iff.1 h
      cases heq
      cases v with
      | number n =>
          cases hvalue
          exact ⟨n, rfl, rfl⟩
      | null | bool | string | array | object => cases hvalue
  | boolean | time | string | group | binary | unary | ternary | reference =>
      obtain ⟨value', -, heq⟩ := Option.map_eq_some_iff.1 h
      cases heq

theorem exists_stamp_of_entryOf? {value : Calendar.Moment}
    (h : (entryOf? k f v : Option (Entry Op)) = some (.time value)) :
    ∃ text, Calendar.Moment.ofStamp text = .ok value := by
  obtain rfl : Field.value = f := field_of_entryOf? h
  cases k with
  | time =>
      obtain ⟨value', hvalue, heq⟩ := Option.map_eq_some_iff.1 h
      cases heq
      cases v with
      | string text =>
          rw [readTime, Json.toOption_mapError, Json.toOption_eq_some] at hvalue
          exact ⟨text.toList, hvalue⟩
      | null | bool | number | array | object => cases hvalue
  | boolean | number | string | group | binary | unary | ternary | reference =>
      obtain ⟨value', -, heq⟩ := Option.map_eq_some_iff.1 h
      cases heq

end

theorem FilledFrom.decodedFrom {e : Expr Op} (hdraft : FilledFrom k values draft)
    (h : draft.Assembles e) : DecodedFrom values e where
  op op hop := by
    obtain ⟨f, v, -, hentry⟩ := hdraft _ (h.op op hop)
    exact exists_read_of_entryOf? hentry
  operand operand hmem := by
    obtain ⟨entry, hholds, htrees, hbrackets⟩ := h.operand operand hmem
    obtain ⟨f, v, hv, hentry⟩ := hdraft entry hholds
    rw [← hbrackets]
    exact ⟨v, hv, exists_heldIn_of_entryOf? hentry htrees⟩
  children id children heq := by
    refine (h.children id children heq).imp_right fun hholds => ?_
    obtain ⟨f, v, hv, hentry⟩ := hdraft _ hholds
    obtain ⟨items, rfl⟩ := exists_items_of_entryOf? hentry
    exact ⟨items, hv⟩
  number id value heq := by
    obtain ⟨f, v, hv, hentry⟩ := hdraft _ (h.number id value heq)
    obtain ⟨n, rfl, hn⟩ := exists_number_of_entryOf? hentry
    exact ⟨n, hv, hn⟩
  time id value heq := by
    obtain ⟨f, v, -, hentry⟩ := hdraft _ (h.time id value heq)
    exact exists_stamp_of_entryOf? hentry

theorem decodedFrom_members {seen : List Field} {members : List (String × Value)} {e : Expr Op}
    (hdecode : decodeMembers k seen members {} = .ok draft) (h : draft.assemble k = .ok e) :
    DecodedFrom (members.map Prod.snd) e :=
  ((filledFrom_empty k _).decodeMembers (fun _ hm => List.mem_map_of_mem hm) hdecode).decodedFrom
    (Draft.assembles h)

theorem decodedFrom_items {items : List Value} {e : Expr Op}
    (hdecode : decodeItems k k.fields items {} = .ok draft)
    (h : draft.assembleItems k items.length = .ok e) : DecodedFrom items e := by
  unfold Draft.assembleItems at h
  split at h
  next => cases h
  next =>
    split at h
    next => cases h
    next =>
      exact ((filledFrom_empty k _).decodeItems (fun _ hitem => hitem) hdecode).decodedFrom
        (Draft.assembles h)

/-- The values of the members or items of a value, its tag aside. -/
inductive Holds : Value → List Value → Prop
  | object (members : List (String × Value)) : Holds (.object members) (members.map Prod.snd)
  | array (tag : Value) (items : List Value) : Holds (.array (tag :: items)) items

theorem exists_decodedFrom {v : Value} {e : Expr Op} (h : decode v = .ok e) :
    ∃ values, Holds v values ∧ DecodedFrom values e := by
  cases v with
  | object members =>
      rw [decode] at h
      obtain ⟨k, -, h⟩ := bind_eq_ok.1 h
      obtain ⟨draft, hdraft, h⟩ := bind_eq_ok.1 h
      exact ⟨_, .object members, decodedFrom_members hdraft h⟩
  | array items =>
      cases items with
      | nil =>
          rw [decode] at h
          cases h
      | cons tag items =>
          rw [decode] at h
          obtain ⟨k, -, h⟩ := bind_eq_ok.1 h
          obtain ⟨draft, hdraft, h⟩ := bind_eq_ok.1 h
          exact ⟨items, .array tag items, decodedFrom_items hdraft h⟩
  | null | bool | number | string =>
      rw [decode] at h
      · cases h
      all_goals simp

theorem decodedFrom_envelope {envelope : Envelope} {e : Expr Op}
    (h : envelope.decode = .ok e) : DecodedFrom envelope.body.values e := by
  obtain ⟨k, body⟩ := envelope
  cases body with
  | members members =>
      obtain ⟨draft, hdraft, h⟩ := bind_eq_ok.1 h
      exact decodedFrom_members hdraft h
  | items items =>
      obtain ⟨draft, hdraft, h⟩ := bind_eq_ok.1 h
      exact decodedFrom_items hdraft h

/-- A text that reads as a tree begins with an envelope that decodes as the tree, and
nothing but space follows. -/
theorem exists_envelope_of_ofJson {text : String} {e : Expr Op} (h : Expr.ofJson text = .ok e) :
    ∃ envelope rest, readEnvelope text.toList = .ok (envelope, rest) ∧
      envelope.decode = .ok e ∧ Json.skipSpace rest = [] := by
  obtain ⟨⟨envelope, rest⟩, hread, h⟩ := bind_eq_ok.1 h
  obtain ⟨tree, htree, h⟩ := bind_eq_ok.1 h
  obtain ⟨_, hend, heq⟩ := bind_eq_ok.1 h
  cases heq
  rw [← Json.toOption_eq_some, Json.toOption_mapError, Json.toOption_eq_some] at hread htree hend
  refine ⟨envelope, rest, hread, htree, ?_⟩
  unfold checkEnd at hend
  split at hend
  next hskip => exact hskip
  next => cases hend

end Interchange
end FilterLang
