import FilterLang.Binary64.Text
import FilterLang.Calendar.Text
import FilterLang.Text.Quoted
import FilterLang.Text.Visible
import FilterLang.Token.Basic

/-!
# Canonical texts and descriptions of tokens

Each token has one text.  Names are quoted only where they would not be read
as names, strings always; numbers have the fewest digits and never an
exponent; keywords are in capitals.

Messages describe a token instead: by its kind, and by what it holds.  There
numbers keep a fraction, and very large and very small ones have an exponent.
-/

namespace FilterLang

/-- Whether a name can stand without quotes: a word that is no keyword. -/
def isBareIdent (name : String) : Bool :=
  match name.toList with
  | [] => false
  | c :: rest =>
      Text.isWordStart c && rest.all Text.isWordChar && (Keyword.ofWord? (c :: rest)).isNone

namespace Token

def identText (name : String) : List Char :=
  if isBareIdent name then name.toList
  else Text.Quoted.write Text.Quoted.identQuote name.toList

def stringText (value : String) : List Char :=
  Text.Quoted.write Text.Quoted.stringQuote value.toList

/-- Numbers in a token stream: positional always, and whole numbers bare. -/
def numberStyle : NumberStyle where
  tie := .up
  positional := fun _ => true
  keepsFraction := false
  signsExponent := false

def text : Token → List Char
  | ident name => identText name
  | string value => stringText value
  | number value => value.text numberStyle
  | time instant => instant.text
  | keyword k => k.text.toList
  | symbol s => s.text.toList
  | endOfInput => "EOF".toList

/-- Numbers in messages: positional from `0.0001` up to below `10 ^ 16`. -/
def describedNumber : NumberStyle where
  tie := .up
  positional := fun point => -3 ≤ point && point ≤ 16
  keepsFraction := true
  signsExponent := false

def described (kind : String) (content : List Char) : List Char :=
  kind.toList ++ '(' :: content ++ [')']

def description : Token → List Char
  | ident name => described "Ident" (Text.visible name.toList)
  | string value => described "String" (Text.visible value.toList)
  | number value => described "Number" (value.text describedNumber)
  | time instant => described "Time" instant.stamp
  | keyword k => k.name.toList
  | symbol s => s.name.toList
  | endOfInput => "Eof".toList

end Token

/-- A name as it stands in a query, in quotes only if needed. -/
def quoteIdent (name : String) : String :=
  String.ofList (Token.identText name)

def quote (value : String) : String :=
  String.ofList (Token.stringText value)

end FilterLang
