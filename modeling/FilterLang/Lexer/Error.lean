/-!
# Where and why a text is no query

Positions count characters; lines end with a line feed, and lines and columns
start at one.  An error names one position: an unexpected character, an opening
quote that is never closed, the backslash of an escape, or the start of a
literal.
-/

namespace FilterLang

structure Position where
  line : Nat
  column : Nat
  deriving DecidableEq

namespace Position

def start : Position := ⟨1, 1⟩

def step (p : Position) (c : Char) : Position :=
  if c = '\n' then ⟨p.line + 1, 1⟩ else ⟨p.line, p.column + 1⟩

/-- The position of the character that follows `text`. -/
def after (text : List Char) : Position :=
  text.foldl step start

def text (p : Position) : String :=
  Nat.repr p.line ++ ":" ++ Nat.repr p.column

end Position

inductive LexCause where
  | unexpectedChar (c : Char)
  | unterminatedString
  | unterminatedIdent
  /-- The characters found wanting behind a backslash: the one that starts no escape, or
  a code from its `u` on.  A code left open is named without its brace. -/
  | invalidEscape (sequence : String)
  | invalidNumber (text : String)
  | invalidTime (text : String)
  deriving DecidableEq

structure LexError where
  cause : LexCause
  position : Position
  deriving DecidableEq

namespace LexError

def message (e : LexError) : String :=
  let place := " at " ++ e.position.text
  match e.cause with
  | .unexpectedChar c => "unexpected character '" ++ String.singleton c ++ "'" ++ place
  | .unterminatedString => "unterminated string" ++ place ++ ": missing closing quote"
  | .unterminatedIdent => "unterminated identifier" ++ place ++ ": missing closing quote"
  | .invalidEscape sequence => "invalid escape sequence '\\" ++ sequence ++ "'" ++ place
  | .invalidNumber text => "invalid number '" ++ text ++ "'" ++ place
  | .invalidTime text => "invalid time '" ++ text ++ "'" ++ place

end LexError
end FilterLang
