import FilterLang.Binary64.Basic
import FilterLang.Calendar.Instant

/-!
# Expression trees

A tree joins leaves by operators of any type `Op`; it never looks inside one.
Operands may be absent, as may children of a group.  Every node carries an
identity that plays no part in its text.

Equality of trees compares numbers and moments by value: the two zeros are
equal, NaN is not equal to itself, and moments are equal if their instants are.
-/

namespace FilterLang

inductive Expr (Op : Type) where
  | group (id : String) (children : List (Option (Expr Op)))
  | binary (id : String) (op : Op) (lhs rhs : Option (Expr Op))
  | unary (id : String) (op : Op) (operand : Option (Expr Op))
  | ternary (id : String) (op : Op) (lhs rhs rhs2 : Option (Expr Op))
  | reference (id name : String)
  | number (id : String) (value : Binary64)
  | boolean (id : String) (value : Bool)
  | string (id value : String)
  | time (id : String) (value : Calendar.Moment)

namespace Expr

variable {Op : Type}

def id : Expr Op → String
  | group id _ | binary id _ _ _ | unary id _ _ | ternary id _ _ _ _ | reference id _
  | number id _ | boolean id _ | string id _ | time id _ => id

def withId (newId : String) : Expr Op → Expr Op
  | group _ children => group newId children
  | binary _ op lhs rhs => binary newId op lhs rhs
  | unary _ op operand => unary newId op operand
  | ternary _ op lhs rhs rhs2 => ternary newId op lhs rhs rhs2
  | reference _ name => reference newId name
  | number _ value => number newId value
  | boolean _ value => boolean newId value
  | string _ value => string newId value
  | time _ value => time newId value

/-- Further texts of a node; none has any. -/
def arguments (_ : Expr Op) : List String :=
  []

def isLeaf : Expr Op → Bool
  | group .. | binary .. | unary .. | ternary .. => false
  | _ => true

@[simp] theorem id_withId (newId : String) (e : Expr Op) : (e.withId newId).id = newId := by
  cases e <;> rfl

mutual

/-- Equality by value, with `sameOp` for operators. -/
def sameValue (sameOp : Op → Op → Bool) : Expr Op → Expr Op → Bool
  | group i xs, group j ys => i == j && sameList sameOp xs ys
  | binary i o l r, binary j p l' r' =>
      i == j && sameOp o p && sameOption sameOp l l' && sameOption sameOp r r'
  | unary i o x, unary j p x' => i == j && sameOp o p && sameOption sameOp x x'
  | ternary i o l r s, ternary j p l' r' s' =>
      i == j && sameOp o p && sameOption sameOp l l' && sameOption sameOp r r' &&
        sameOption sameOp s s'
  | reference i m, reference j n => i == j && m == n
  | number i x, number j y => i == j && x.sameValue y
  | boolean i b, boolean j c => i == j && b == c
  | string i s, string j t => i == j && s == t
  | time i m, time j n => i == j && m.instant == n.instant
  | _, _ => false

def sameOption (sameOp : Op → Op → Bool) : Option (Expr Op) → Option (Expr Op) → Bool
  | none, none => true
  | some e, some f => sameValue sameOp e f
  | _, _ => false

def sameList (sameOp : Op → Op → Bool) :
    List (Option (Expr Op)) → List (Option (Expr Op)) → Bool
  | [], [] => true
  | x :: xs, y :: ys => sameOption sameOp x y && sameList sameOp xs ys
  | _, _ => false

end

end Expr
end FilterLang
