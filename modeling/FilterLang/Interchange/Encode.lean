import FilterLang.Calendar.Text
import FilterLang.Interchange.Mismatch

/-!
# Trees as JSON values

The kind comes first, then the identity and the other fields in order.  Absent
operands are left out, absent children are null.  Writing fails at the first
operator, in the order of the text, that has no form.
-/

namespace FilterLang
namespace Interchange

variable {Op : Type} [OperatorForm Op]

/-- The members that every node begins with. -/
def header (k : Kind) (id : String) : List (String × Json.Value) :=
  [(tagName, .string k.name), (Field.id.key, .string id)]

def literal (k : Kind) (id : String) (f : Field) (value : Json.Value) : Json.Value :=
  .object (header k id ++ [(f.key, value)])

/-- A number as a value; those that are not finite have none of their own. -/
def numberValue : Binary64 → Json.Value
  | .finite negative magnitude => .number (.float (.finite negative magnitude))
  | _ => .null

def operatorMember (op : Op) : Except Mismatch (List (String × Json.Value)) := do
  return [(Field.op.key, .string (← OperatorForm.write op))]

mutual

def encode : Expr Op → Except Mismatch Json.Value
  | .group id children => do
      return .object (header .group id ++
        [(Field.children.key, .array (← encodeChildren children))])
  | .binary id op lhs rhs => do
      return .object (header .binary id ++ (← operatorMember op) ++
        (← encodeOperand .lhs lhs) ++ (← encodeOperand .rhs rhs))
  | .unary id op operand => do
      return .object (header .unary id ++ (← operatorMember op) ++
        (← encodeOperand .operand operand))
  | .ternary id op lhs rhs rhs2 => do
      return .object (header .ternary id ++ (← operatorMember op) ++
        (← encodeOperand .lhs lhs) ++ (← encodeOperand .rhs rhs) ++
        (← encodeOperand .rhs2 rhs2))
  | .reference id name => .ok (literal .reference id .name (.string name))
  | .number id value => .ok (literal .number id .value (numberValue value))
  | .boolean id value => .ok (literal .boolean id .value (.bool value))
  | .string id value => .ok (literal .string id .value (.string value))
  | .time id value =>
      .ok (literal .time id .value (.string (String.ofList value.stamp)))

def encodeOperand (f : Field) : Option (Expr Op) → Except Mismatch (List (String × Json.Value))
  | none => .ok []
  | some operand => do return [(f.key, ← encode operand)]

def encodeChildren : List (Option (Expr Op)) → Except Mismatch (List Json.Value)
  | [] => .ok []
  | none :: children => do return .null :: (← encodeChildren children)
  | some child :: children => do
      let value ← encode child
      return value :: (← encodeChildren children)

end

end Interchange
end FilterLang
