/-!
# Keywords

The ten reserved words.  A word is a keyword whatever the case of its ASCII
letters; each keyword has one canonical text, in capitals.
-/

namespace FilterLang

inductive Keyword where
  | and
  | or
  | not
  | isIn
  | like
  | between
  | is
  | null
  | true
  | false
  deriving DecidableEq

namespace Keyword

def all : List Keyword :=
  [.and, .or, .not, .isIn, .like, .between, .is, .null, .true, .false]

/-- The canonical text, also the one written when a tree is rendered. -/
def text : Keyword → String
  | and => "AND"
  | or => "OR"
  | not => "NOT"
  | isIn => "IN"
  | like => "LIKE"
  | between => "BETWEEN"
  | is => "IS"
  | null => "NULL"
  | true => "TRUE"
  | false => "FALSE"

def name : Keyword → String
  | and => "And"
  | or => "Or"
  | not => "Not"
  | isIn => "In"
  | like => "Like"
  | between => "Between"
  | is => "Is"
  | null => "Null"
  | true => "True"
  | false => "False"

/-- Keywords that combine expressions; the other three name values. -/
def isOperator : Keyword → Bool
  | null | true | false => Bool.false
  | _ => Bool.true

/-- The keyword that a word spells, its ASCII letters in either case. -/
def ofWord? (word : List Char) : Option Keyword :=
  all.find? fun k => k.text.toList == word.map Char.toUpper

theorem mem_all (k : Keyword) : k ∈ all := by
  cases k <;> decide

end Keyword
end FilterLang
