import FilterLang.Expr.Basic
import FilterLang.Token.Text

/-!
# Trees and their text

The text of a tree is one line.  Operators stand before, between and after
their operands with single spaces; the third operand of a ternary follows the
second.  Children of a group stand side by side.  A node that lacks an operand
renders as nothing at all.

A tree is one kind of node of a document.  Any consumer may ask a node for its
text, its identity and its arguments.  Nodes that are not expressions, such as
comments, have no arguments unless they say so.
-/

namespace FilterLang

/-- Values with one canonical text. -/
class CanonicalText (α : Type) where
  text : α → List Char

instance : CanonicalText Token := ⟨Token.text⟩

instance : CanonicalText String := ⟨String.toList⟩

namespace Expr

/-- Literals have three decimals, and names if they are not finite. -/
def numberText : Binary64 → List Char
  | .nan => "NaN".toList
  | .infinite negative => (if negative then "-Inf" else "+Inf").toList
  | .finite negative magnitude => Binary64.signText negative ++ magnitude.fixedText 3

variable {Op : Type} [CanonicalText Op]

mutual

def text : Expr Op → List Char
  | group _ children => childrenText children
  | binary _ op (some lhs) (some rhs) =>
      text lhs ++ ' ' :: CanonicalText.text op ++ ' ' :: text rhs
  | unary _ op (some operand) => CanonicalText.text op ++ ' ' :: text operand
  | ternary _ op (some lhs) (some rhs) (some rhs2) =>
      text lhs ++ ' ' :: CanonicalText.text op ++ ' ' :: text rhs ++ ' ' :: text rhs2
  | binary .. | unary .. | ternary .. => []
  | reference _ name => Token.identText name
  | number _ value => numberText value
  | boolean _ value => (if value then "true" else "false").toList
  | string _ value => Token.stringText value
  | time _ value => value.instant.text

def childrenText : List (Option (Expr Op)) → List Char
  | [] => []
  | none :: children => childrenText children
  | some child :: children => text child ++ childrenText children

end

def render (e : Expr Op) : String :=
  String.ofList e.text

theorem childrenText_append (before after : List (Option (Expr Op))) :
    childrenText (before ++ after) = childrenText before ++ childrenText after := by
  induction before with
  | nil => rfl
  | cons operand before ih =>
      cases operand with
      | none => exact ih
      | some child =>
          rw [List.cons_append, childrenText, childrenText, ih, List.append_assoc]

end Expr

structure Node where
  render : String
  id : String
  arguments : List String := []
  isExpression : Bool := false

def Expr.toNode {Op : Type} [CanonicalText Op] (e : Expr Op) : Node where
  render := e.render
  id := e.id
  arguments := e.arguments
  isExpression := true

end FilterLang
