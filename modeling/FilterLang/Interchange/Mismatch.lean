import FilterLang.Calendar.Stamp
import FilterLang.Expr.Node
import FilterLang.Interchange.Kind
import FilterLang.Json.Writer

/-!
# Why a JSON value is no tree, or a tree no JSON value

A value may be of the wrong type, a kind unknown, a field missing or repeated,
an array too short or too long, an operator or a time unreadable.  A tree has
no JSON value if a token stands in it that is no operator.

An operator stands in the format as a string.  Tokens are read by their texts
and written only if they are operators; trees whose operators are strings take
any string.
-/

namespace FilterLang
namespace Interchange

inductive Wanted where
  | tree
  | kind
  | text
  | number
  | boolean
  | children
  | time

def Wanted.message : Wanted → String
  | tree => "internally tagged enum Expr"
  | kind => "variant identifier"
  | text => "a string"
  | number => "f64"
  | boolean => "a boolean"
  | children => "a sequence"
  | time => "an RFC 3339 formatted date and time string"

inductive Mismatch where
  | wrongType (found : Json.Value) (wanted : Wanted)
  | unknownKind (name : String)
  | noSuchIndex (index : Nat)
  | missing (field : String)
  | repeated (field : String)
  | tooShort (kind : Kind) (length : Nat)
  | tooLong (kind : Kind) (length : Nat)
  | unknownOperator (e : UnknownOperator)
  | badStamp (fault : Calendar.StampFault)
  | notOperator (token : Token)

/-- A value in the words of a message; of arrays and objects only the type. -/
def describe : Json.Value → String
  | .null => "null"
  | .bool value => "boolean `" ++ (if value then "true" else "false") ++ "`"
  | .number (.integer value) =>
      "integer `" ++ String.ofList (Json.Number.text (.integer value)) ++ "`"
  | .number (.float value) =>
      "floating point `" ++ String.ofList (Json.Number.text (.float value)) ++ "`"
  | .string value => "string " ++ String.ofList (Text.visible value.toList)
  | .array _ => "sequence"
  | .object _ => "map"

def Mismatch.message : Mismatch → String
  | wrongType found wanted =>
      "invalid type: " ++ describe found ++ ", expected " ++ wanted.message
  | unknownKind name =>
      "unknown variant `" ++ name ++ "`, expected one of " ++
        String.intercalate ", " (Kind.all.map fun k => "`" ++ k.name ++ "`")
  | noSuchIndex index =>
      "invalid value: integer `" ++ Nat.repr index ++ "`, expected variant index 0 <= i < " ++
        Nat.repr Kind.all.length
  | missing field => "missing field `" ++ field ++ "`"
  | repeated field => "duplicate field `" ++ field ++ "`"
  | tooShort kind length =>
      "invalid length " ++ Nat.repr length ++ ", expected struct variant Expr::" ++
        kind.title ++ " with " ++ Nat.repr kind.fields.length ++ " elements"
  | tooLong kind length =>
      "invalid length " ++ Nat.repr length ++ ", expected " ++
        Nat.repr kind.fields.length ++ " elements in sequence"
  | unknownOperator e => e.message
  | badStamp fault => fault.message
  | notOperator token =>
      "token " ++ String.ofList token.description ++ " is not an operator"

class OperatorForm (Op : Type) extends CanonicalText Op where
  read : String → Except Mismatch Op
  write : Op → Except Mismatch String

instance : OperatorForm Token where
  read text := (Token.ofOperatorText text).mapError .unknownOperator
  write token :=
    if token.isOperator then .ok (String.ofList token.text) else .error (.notOperator token)

instance : OperatorForm String where
  read := .ok
  write := .ok

end Interchange
end FilterLang
