import FilterLang.Interchange.Mismatch

/-!
# JSON values as trees

The fields of a node are gathered in a draft, in the order in which they are
written, and the node is assembled from it.  Members that the kind does not
know are passed over; a field may not be given twice.  In an array the fields
stand in their order, and those at the end that are not required may be
missing.  Null stands for an absent operand or child and nowhere else.
-/

namespace FilterLang
namespace Interchange

/-- The fields of a node as far as they have been read. -/
structure Draft (Op : Type) where
  id : Option String := none
  op : Option Op := none
  children : Option (List (Option (Expr Op))) := none
  lhs : Option (Option (Expr Op)) := none
  rhs : Option (Option (Expr Op)) := none
  rhs2 : Option (Option (Expr Op)) := none
  operand : Option (Option (Expr Op)) := none
  name : Option String := none
  number : Option Binary64 := none
  boolean : Option Bool := none
  string : Option String := none
  time : Option Calendar.Moment := none

/-- What a field's value holds as an operand and as children, worked out only
for a field that asks for it. -/
structure Subtrees (Op : Type) where
  operand : Unit → Except Mismatch (Option (Expr Op))
  children : Unit → Except Mismatch (List (Option (Expr Op)))

variable {Op : Type}

def isNull : Json.Value → Bool
  | .null => true
  | _ => false

def readText : Json.Value → Except Mismatch String
  | .string text => .ok text
  | other => .error (.wrongType other .text)

def readNumber : Json.Value → Except Mismatch Binary64
  | .number n => .ok n.toBinary64
  | other => .error (.wrongType other .number)

def readBool : Json.Value → Except Mismatch Bool
  | .bool value => .ok value
  | other => .error (.wrongType other .boolean)

def readTime : Json.Value → Except Mismatch Calendar.Moment
  | .string text => (Calendar.Moment.ofStamp text.toList).mapError .badStamp
  | other => .error (.wrongType other .time)

def Kind.ofName (name : String) : Except Mismatch Kind :=
  match Kind.ofName? name with
  | some k => .ok k
  | none => .error (.unknownKind name)

/-- The kind that a value names, or counts from zero, inside another node. -/
def kindOf : Json.Value → Except Mismatch Kind
  | .string name => Kind.ofName name
  | .number (.integer (.ofNat index)) =>
      match Kind.all[index]? with
      | some k => .ok k
      | none => .error (.noSuchIndex index)
  | other => .error (.wrongType other .kind)

/-- The kind among the members of an object; `found?` is the one named before. -/
def kindAmong : List (String × Json.Value) → (found? : Option Kind) → Except Mismatch Kind
  | [], some k => .ok k
  | [], none => .error (.missing tagName)
  | (name, value) :: members, found? =>
      if name = tagName then
        match found? with
        | some _ => .error (.repeated tagName)
        | none => do kindAmong members (some (← kindOf value))
      else kindAmong members found?

namespace Draft

variable [OperatorForm Op]

/-- Reads the value of one field of a kind into the draft. -/
def fill (k : Kind) (f : Field) (value : Json.Value) (subtrees : Subtrees Op)
    (draft : Draft Op) : Except Mismatch (Draft Op) :=
  match f with
  | .id => do return { draft with id := some (← readText value) }
  | .op => do return { draft with op := some (← OperatorForm.read (← readText value)) }
  | .children => do return { draft with children := some (← subtrees.children ()) }
  | .lhs => do return { draft with lhs := some (← subtrees.operand ()) }
  | .rhs => do return { draft with rhs := some (← subtrees.operand ()) }
  | .rhs2 => do return { draft with rhs2 := some (← subtrees.operand ()) }
  | .operand => do return { draft with operand := some (← subtrees.operand ()) }
  | .name => do return { draft with name := some (← readText value) }
  | .value =>
      match k with
      | .number => do return { draft with number := some (← readNumber value) }
      | .boolean => do return { draft with boolean := some (← readBool value) }
      | .time => do return { draft with time := some (← readTime value) }
      | _ => do return { draft with string := some (← readText value) }

end Draft

def require {α : Type} (f : Field) : Option α → Except Mismatch α
  | some a => .ok a
  | none => .error (.missing f.key)

namespace Draft

def assemble (k : Kind) (draft : Draft Op) : Except Mismatch (Expr Op) :=
  let id := draft.id.getD ""
  match k with
  | .group => .ok (.group id (draft.children.getD []))
  | .binary => do
      return .binary id (← require .op draft.op) draft.lhs.join draft.rhs.join
  | .unary => do return .unary id (← require .op draft.op) draft.operand.join
  | .ternary => do
      return .ternary id (← require .op draft.op) draft.lhs.join draft.rhs.join draft.rhs2.join
  | .reference => do return .reference id (← require .name draft.name)
  | .number => do return .number id (← require .value draft.number)
  | .boolean => do return .boolean id (← require .value draft.boolean)
  | .string => do return .string id (← require .value draft.string)
  | .time => do return .time id (← require .value draft.time)

end Draft

/-- The node with the fields of an array of a given length, which may leave out
fields at the end that are not required. -/
def Draft.assembleItems (k : Kind) (length : Nat) (draft : Draft Op) :
    Except Mismatch (Expr Op) :=
  if k.fields.length < length then .error (.tooLong k length)
  else
    match (k.fields.drop length).findIdx? Field.isRequired with
    | some i => .error (.tooShort k (length + i))
    | none => draft.assemble k

variable [OperatorForm Op]

mutual

def decode : Json.Value → Except Mismatch (Expr Op)
  | .object members => do
      let k ← kindAmong members none
      let draft ← decodeMembers k [] members {}
      draft.assemble k
  | .array [] => .error (.missing tagName)
  | .array (tag :: items) => do
      let k ← kindOf tag
      let draft ← decodeItems k k.fields items {}
      draft.assembleItems k items.length
  | other => .error (.wrongType other .tree)

/-- Reads members into a draft; `seen` are the fields read before. -/
def decodeMembers (k : Kind) (seen : List Field) :
    List (String × Json.Value) → Draft Op → Except Mismatch (Draft Op)
  | [], draft => .ok draft
  | (name, value) :: members, draft =>
      match k.field? name with
      | none => decodeMembers k seen members draft
      | some f =>
          if f ∈ seen then .error (.repeated f.key)
          else do
            let draft ← draft.fill k f value
              { operand := fun _ =>
                  if isNull value then .ok none else (decode value).map some
                children := fun _ => decodeChildren value }
            decodeMembers k (f :: seen) members draft

/-- Reads the items of an array into a draft, as far as there are fields. -/
def decodeItems (k : Kind) : List Field → List Json.Value → Draft Op →
    Except Mismatch (Draft Op)
  | f :: fields, value :: items, draft => do
      let draft ← draft.fill k f value
        { operand := fun _ => if isNull value then .ok none else (decode value).map some
          children := fun _ => decodeChildren value }
      decodeItems k fields items draft
  | _, _, draft => .ok draft

def decodeChildren : Json.Value → Except Mismatch (List (Option (Expr Op)))
  | .array items => decodeChildList items
  | other => .error (.wrongType other .children)

def decodeChildList : List Json.Value → Except Mismatch (List (Option (Expr Op)))
  | [] => .ok []
  | item :: items => do
      let child ← if isNull item then .ok none else (decode item).map some
      return child :: (← decodeChildList items)

end

end Interchange
end FilterLang
