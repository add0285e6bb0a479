/-!
# Kinds of nodes and their fields

In the exchange format a node is an object whose member `type` names its kind,
or an array that begins with that name.  Each kind has its fields in a fixed
order; all but a few may be left out.
-/

namespace FilterLang
namespace Interchange

inductive Kind where
  | group
  | binary
  | unary
  | ternary
  | reference
  | number
  | boolean
  | string
  | time
  deriving DecidableEq

inductive Field where
  | id
  | children
  | op
  | lhs
  | rhs
  | rhs2
  | operand
  | name
  | value
  deriving DecidableEq

def tagName : String := "type"

namespace Kind

def all : List Kind :=
  [.group, .binary, .unary, .ternary, .reference, .number, .boolean, .string, .time]

def name : Kind → String
  | group => "group"
  | binary => "binary"
  | unary => "unary"
  | ternary => "ternary"
  | reference => "variable_reference"
  | number => "number_literal"
  | boolean => "boolean_literal"
  | string => "string_literal"
  | time => "time_literal"

/-- The name that messages about arrays use. -/
def title : Kind → String
  | group => "Group"
  | binary => "Binary"
  | unary => "Unary"
  | ternary => "Ternary"
  | reference => "VariableReference"
  | number => "NumberLiteral"
  | boolean => "BooleanLiteral"
  | string => "StringLiteral"
  | time => "TimeLiteral"

def fields : Kind → List Field
  | group => [.id, .children]
  | binary => [.id, .op, .lhs, .rhs]
  | unary => [.id, .op, .operand]
  | ternary => [.id, .op, .lhs, .rhs, .rhs2]
  | reference => [.id, .name]
  | number | boolean | string | time => [.id, .value]

def ofName? (name : String) : Option Kind :=
  all.find? fun k => k.name == name

end Kind

namespace Field

def key : Field → String
  | id => "id"
  | children => "children"
  | op => "op"
  | lhs => "lhs"
  | rhs => "rhs"
  | rhs2 => "rhs2"
  | operand => "operand"
  | name => "name"
  | value => "value"

/-- Fields that a node cannot do without. -/
def isRequired : Field → Bool
  | op | name | value => true
  | _ => false

end Field

def Kind.field? (k : Kind) (name : String) : Option Field :=
  k.fields.find? fun f => f.key == name

end Interchange
end FilterLang
