import FilterLang.Interchange.Tree
import FilterLang.Lexer.Basic
import FilterLang.Token.Text

/-!
# Answers about queries and trees

The text of a tree given in the exchange format, and the tokens of a query as a
JSON array.  A token is reported by its class and its text; names and strings
are reported by what they hold, without quotes.
-/

namespace FilterLang

/-- What an answer can fail for. -/
inductive ReportError where
  | lex (e : LexError)
  | json (e : Interchange.Error)
  | notUnicode
  | noInput

def ReportError.message : ReportError → String
  | lex e => "Lex error: " ++ e.message
  | json e => "Invalid expression JSON: " ++ e.message
  | notUnicode => "IO error: stream did not contain valid UTF-8"
  | noInput => "No input provided. Use --input or pipe JSON to stdin."

/-- The class under which a token is reported. -/
def Token.className : Token → String
  | .ident _ => "ident"
  | .string _ => "string"
  | .number _ => "number"
  | .time _ => "time"
  | .keyword _ => "keyword"
  | .symbol s => if s.isOperator then "operator" else "delimiter"
  | .endOfInput => "delimiter"

def Token.reportedText : Token → String
  | .ident name => name
  | .string value => value
  | other => String.ofList other.text

def Token.report (t : Token) : Json.Value :=
  .object [("kind", .string t.className), ("text", .string t.reportedText)]

def renderReport (input? : Option String) : Except ReportError String :=
  match input? with
  | none => .error .noInput
  | some input =>
      match (Expr.ofJson input : Except Interchange.Error (Expr Token)) with
      | .ok tree => .ok tree.render
      | .error e => .error (.json e)

/-- The tokens of a query as JSON, spread over lines if `pretty`. -/
def tokensReport (query : String) (pretty : Bool) : Except ReportError String :=
  match tokenize query with
  | .ok tokens =>
      let value := Json.Value.array (tokens.map Token.report)
      .ok (String.ofList (if pretty then value.spreadText 0 else value.text))
  | .error e => .error (.lex e)

end FilterLang
