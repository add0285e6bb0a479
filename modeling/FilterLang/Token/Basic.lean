import FilterLang.Binary64.Basic
import FilterLang.Calendar.Instant
import FilterLang.Text.Characters
import FilterLang.Token.Keyword
import FilterLang.Token.Symbol

/-!
# Tokens

What a query consists of: names, literals, keywords and symbols.  Tokens that
can join expressions are the operators of a tree.
-/

namespace FilterLang

inductive Token where
  | ident (name : String)
  | string (value : String)
  | number (value : Binary64)
  | time (instant : Calendar.Instant)
  | keyword (keyword : Keyword)
  | symbol (symbol : Symbol)
  | endOfInput
  deriving DecidableEq

namespace Token

def isKeyword : Token → Bool
  | keyword _ => true
  | _ => false

/-- Whether the token can stand between or before expressions. -/
def isOperator : Token → Bool
  | keyword k => k.isOperator
  | symbol s => s.isOperator
  | _ => false

/-- Equality of what tokens denote: numbers compare by value. -/
def sameValue : Token → Token → Bool
  | number x, number y => x.sameValue y
  | s, t => s == t

end Token

/-- A text that names neither a symbol nor a keyword. -/
structure UnknownOperator where
  text : String
  deriving DecidableEq

def UnknownOperator.message (e : UnknownOperator) : String :=
  "unknown operator '" ++ e.text ++ "'"

/-- The keyword or symbol written as `text`, blanks around it aside. -/
def Token.ofOperatorText (text : String) : Except UnknownOperator Token :=
  let trimmed := Text.trimBlanks text.toList
  match Symbol.ofText? trimmed with
  | some s => .ok (.symbol s)
  | none =>
      match Keyword.ofWord? trimmed with
      | some k => .ok (.keyword k)
      | none => .error ⟨String.ofList trimmed⟩

end FilterLang
