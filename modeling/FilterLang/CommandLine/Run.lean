import FilterLang.CommandLine.Arguments
import FilterLang.Report

/-!
# Running commands

A run is a function of the arguments and of the bytes of standard input, and
gives an exit code and two texts.  The code is zero for an answer, one for an
error, and two for arguments that are refused.
-/

namespace FilterLang
namespace CommandLine

structure Outcome where
  exitCode : Nat
  output : String
  errors : String
  deriving DecidableEq

def usage : String :=
  "fexpr - Render filter-language expression trees to canonical text\n\n" ++
  "Usage: fexpr <COMMAND>\n\n" ++
  "Commands:\n" ++
  "  render  Render a JSON-encoded expression tree\n" ++
  "  tokens  Print the token stream of a query as JSON\n" ++
  "  quote   Quote a value as a string literal\n" ++
  "  ident   Quote a name as an identifier, only if needed\n" ++
  "  help    Print this message or the help of the given subcommand(s)\n\n" ++
  "Options:\n" ++
  "  -h, --help     Print help\n" ++
  "  -V, --version  Print version\n"

def version : String := "fexpr 0.1.0"

/-- The answer to a command; `stdin` is asked for only when a tree is not given
among the arguments, and is `none` if there is no input to read. -/
def Command.answer (stdin : Unit → Option ByteArray) : Command → Except ReportError String
  | .render (some input) => renderReport (some input)
  | .render none =>
      match stdin () with
      | none => renderReport none
      | some content =>
          match String.fromUTF8? content with
          | some input => renderReport (some input)
          | none => .error .notUnicode
  | .tokens query pretty => tokensReport query pretty
  | .quote value => .ok (FilterLang.quote value)
  | .ident name => .ok (quoteIdent name)

def Command.readsInput : Command → Bool
  | .render none => true
  | _ => false

def run (arguments : List String) (stdin : Unit → Option ByteArray) : Outcome :=
  match readRequest arguments with
  | none => ⟨2, "", usage⟩
  | some .help => ⟨0, usage, ""⟩
  | some .version => ⟨0, version ++ "\n", ""⟩
  | some (.run command) =>
      match command.answer stdin with
      | .ok answer => ⟨0, answer ++ "\n", ""⟩
      | .error e => ⟨1, "", e.message ++ "\n"⟩

end CommandLine
end FilterLang
