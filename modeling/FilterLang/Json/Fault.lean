/-!
# What can be wrong with a JSON text

A fault tells its cause and where reading stood: the text not yet read, and how
many bytes of it the reported position includes.  Positions count lines from
one and bytes since the last line feed, so a fault right after a line feed has
column zero.  A position never lies beyond the end of the text.

Readers of a particular kind of document add complaints of their own, of a type
`μ`, to the causes of the format.
-/

namespace FilterLang
namespace Json

inductive Cause (μ : Type) where
  | endInValue
  | endInList
  | endInObject
  | endInString
  | expectedValue
  | expectedLiteral
  | expectedColon
  | expectedCommaOrBracket
  | expectedCommaOrBrace
  | keyNotString
  | trailingComma
  | trailingCharacters
  | tooDeep
  | invalidNumber
  | numberOutOfRange
  | invalidEscape
  | loneSurrogate
  | endInSurrogatePair
  | controlCharacter
  /-- The text is well formed so far, but its content will not do. -/
  | unsuitable (reason : μ)

inductive Category where
  | syntaxError
  | endOfText
  | content
  deriving DecidableEq

namespace Cause

variable {μ : Type}

def category : Cause μ → Category
  | endInValue | endInList | endInObject | endInString => .endOfText
  | unsuitable _ => .content
  | _ => .syntaxError

def message (describe : μ → String) : Cause μ → String
  | endInValue => "EOF while parsing a value"
  | endInList => "EOF while parsing a list"
  | endInObject => "EOF while parsing an object"
  | endInString => "EOF while parsing a string"
  | expectedValue => "expected value"
  | expectedLiteral => "expected ident"
  | expectedColon => "expected `:`"
  | expectedCommaOrBracket => "expected `,` or `]`"
  | expectedCommaOrBrace => "expected `,` or `\x7d`"
  | keyNotString => "key must be a string"
  | trailingComma => "trailing comma"
  | trailingCharacters => "trailing characters"
  | tooDeep => "recursion limit exceeded"
  | invalidNumber => "invalid number"
  | numberOutOfRange => "number out of range"
  | invalidEscape => "invalid escape"
  | loneSurrogate => "lone leading surrogate in hex escape"
  | endInSurrogatePair => "unexpected end of hex escape"
  | controlCharacter => "control character (\\u0000-\\u001F) found while parsing a string"
  | unsuitable reason => describe reason

end Cause

structure Fault (μ : Type) where
  cause : Cause μ
  rest : List Char
  ahead : Nat

structure Position where
  line : Nat
  column : Nat
  deriving DecidableEq

def bytes (text : List Char) : List UInt8 :=
  text.flatMap String.utf8EncodeChar

/-- The position after some bytes. -/
def Position.after (read : List UInt8) : Position where
  line := 1 + read.count 10
  column := (read.reverse.takeWhile (· != 10)).length

/-- The position of a fault in the text that was read. -/
def Fault.position {μ : Type} (source : List Char) (f : Fault μ) : Position :=
  let all := bytes source
  Position.after (all.take (all.length - (bytes f.rest).length + f.ahead))

/-- The cause at the next `ahead` bytes of what is left. -/
def fail {μ α : Type} (cause : Cause μ) (rest : List Char) (ahead : Nat) :
    Except (Fault μ) α :=
  .error ⟨cause, rest, ahead⟩

/-- A part of a document: reads it at the start of a text, and gives it with the
text left.  Reading takes at least one character. -/
structure Reader (μ α : Type) where
  run : List Char → Except (Fault μ) (α × List Char)
  shorter : ∀ {text rest : List Char} {a : α},
    run text = .ok (a, rest) → rest.length < text.length

end Json
end FilterLang
