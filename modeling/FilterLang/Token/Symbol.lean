/-!
# Symbols

Operators and delimiters that are written with punctuation.  Each symbol has
exactly one text, of one or two characters.
-/

namespace FilterLang

inductive Symbol where
  | eq
  | notEq
  | lt
  | ltEq
  | gt
  | gtEq
  | eqRegex
  | notEqRegex
  | plus
  | minus
  | star
  | slash
  | percent
  | lParen
  | rParen
  | comma
  deriving DecidableEq

namespace Symbol

def all : List Symbol :=
  [.eq, .notEq, .lt, .ltEq, .gt, .gtEq, .eqRegex, .notEqRegex,
    .plus, .minus, .star, .slash, .percent, .lParen, .rParen, .comma]

def text : Symbol → String
  | eq => "="
  | notEq => "!="
  | lt => "<"
  | ltEq => "<="
  | gt => ">"
  | gtEq => ">="
  | eqRegex => "=~"
  | notEqRegex => "!~"
  | plus => "+"
  | minus => "-"
  | star => "*"
  | slash => "/"
  | percent => "%"
  | lParen => "("
  | rParen => ")"
  | comma => ","

def name : Symbol → String
  | eq => "Eq"
  | notEq => "NotEq"
  | lt => "Lt"
  | ltEq => "LtEq"
  | gt => "Gt"
  | gtEq => "GtEq"
  | eqRegex => "EqRegex"
  | notEqRegex => "NotEqRegex"
  | plus => "Plus"
  | minus => "Minus"
  | star => "Star"
  | slash => "Slash"
  | percent => "Percent"
  | lParen => "LParen"
  | rParen => "RParen"
  | comma => "Comma"

/-- Parentheses and the comma delimit; every other symbol combines expressions. -/
def isOperator : Symbol → Bool
  | lParen | rParen | comma => false
  | _ => true

/-- The symbol with exactly this text. -/
def ofText? (text : List Char) : Option Symbol :=
  all.find? fun s => s.text.toList == text

theorem mem_all (s : Symbol) : s ∈ all := by
  cases s <;> decide

end Symbol
end FilterLang
