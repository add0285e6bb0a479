import FilterLang.Lexer.Scan

/-!
# Lexers

A lexer is a text and a cursor into it.  `nextToken` gives the token at the
cursor, `endOfInput` at the end, and may be called again after an error.
`next?` gives the tokens before the end and nothing after the first error: the
cursor is then set beyond the end of the text, where no token is left.

`tokenize` gives all tokens of a text at once, or the first error.
-/

namespace FilterLang

structure Lexer where
  source : List Char
  cursor : Nat

namespace Lexer

def ofText (text : String) : Lexer :=
  ⟨text.toList, 0⟩

/-- The text from the cursor on. -/
def rest (lexer : Lexer) : List Char :=
  lexer.source.drop lexer.cursor

def advance (lexer : Lexer) (rest : List Char) : Lexer :=
  { lexer with cursor := lexer.cursor + (lexer.rest.length - rest.length) }

def halt (lexer : Lexer) : Lexer :=
  { lexer with cursor := lexer.source.length + 1 }

end Lexer

/-- The error of a failed scan somewhere in `source`. -/
def Misread.locate (source : List Char) (m : Misread) : LexError :=
  ⟨m.cause, Position.after (source.take (source.length - m.place.length))⟩

namespace Lexer

def nextToken (lexer : Lexer) : Except LexError Token × Lexer :=
  let scan := Scan.next lexer.rest
  (scan.result.mapError (Misread.locate lexer.source), lexer.advance scan.rest)

def next? (lexer : Lexer) : Option (Except LexError Token) × Lexer :=
  if lexer.source.length < lexer.cursor then (none, lexer)
  else
    match lexer.nextToken with
    | (.ok .endOfInput, lexer) => (none, lexer)
    | (.ok token, lexer) => (some (.ok token), lexer)
    | (.error e, lexer) => (some (.error e), lexer.halt)

end Lexer

/-- All tokens of a text up to its end, which is not among them. -/
def scanAll (text : List Char) : Except Misread (List Token) :=
  match h : (Scan.next text).result with
  | .error m => .error m
  | .ok token =>
      if hend : token = .endOfInput then .ok []
      else
        have := Scan.next_shorter h hend
        (scanAll (Scan.next text).rest).map (token :: ·)
  termination_by text.length

def tokenize (text : String) : Except LexError (List Token) :=
  (scanAll text.toList).mapError (Misread.locate text.toList)

end FilterLang
