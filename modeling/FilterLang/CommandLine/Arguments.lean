/-!
# Arguments of the command line

The first argument names a command; the rest are its options and values.  An
option has a short and a long form.  Short options may share one dash, and the
value of an option may stand in the same argument, after an equals sign if one
likes.  After a lone double dash everything is a value; before it an argument
that begins with a dash and has more characters never is.

Arguments are read from left to right.  A request for help or for the version
is answered as soon as it is met, and the first argument that fits nowhere
refuses the whole line.
-/

namespace FilterLang
namespace CommandLine

inductive Command where
  | render (input : Option String)
  | tokens (query : String) (pretty : Bool)
  | quote (value : String)
  | ident (name : String)
  deriving DecidableEq

inductive Request where
  | help
  | version
  | run (command : Command)
  deriving DecidableEq

/-- The options and the number of values that a command takes. -/
structure Accepted where
  values : Nat
  input : Bool := false
  pretty : Bool := false

structure Given where
  values : List String := []
  input : Option String := none
  pretty : Bool := false

/-- What one argument, or several, leave to do. -/
inductive Step where
  | refused
  | help
  | next (given : Given)
  /-- The next argument is the value of the input option. -/
  | awaitingInput (given : Given)

def isOption (argument : List Char) : Bool :=
  match argument with
  | '-' :: _ :: _ => true
  | _ => false

def Given.withInput (accepted : Accepted) (given : Given) (input : String) : Step :=
  if accepted.input && given.input.isNone then .next { given with input := some input }
  else .refused

def Given.awaitInput (accepted : Accepted) (given : Given) : Step :=
  if accepted.input && given.input.isNone then .awaitingInput given else .refused

def Given.withPretty (accepted : Accepted) (given : Given) : Step :=
  if accepted.pretty && !given.pretty then .next { given with pretty := true } else .refused

def Given.withValue (accepted : Accepted) (given : Given) (value : String) : Step :=
  if given.values.length < accepted.values then
    .next { given with values := given.values ++ [value] }
  else .refused

/-- Options that share one dash. -/
def readShort (accepted : Accepted) (given : Given) : List Char → Step
  | [] => .next given
  | 'h' :: _ => .help
  | 'p' :: rest =>
      match given.withPretty accepted with
      | .next given => readShort accepted given rest
      | other => other
  | ['i'] => given.awaitInput accepted
  | 'i' :: '=' :: rest => given.withInput accepted (String.ofList rest)
  | 'i' :: rest => given.withInput accepted (String.ofList rest)
  | _ :: _ => .refused

/-- An option written in full, without its dashes. -/
def readLong (accepted : Accepted) (given : Given) (option : List Char) : Step :=
  let name := String.ofList (option.takeWhile (· != '='))
  match option.dropWhile (· != '=') with
  | [] =>
      if name = "help" then .help
      else if name = "pretty" then given.withPretty accepted
      else if name = "input" then given.awaitInput accepted
      else .refused
  | _ :: value =>
      if name = "input" then given.withInput accepted (String.ofList value) else .refused

def readArgument (accepted : Accepted) (given : Given) (argument : String) : Step :=
  match argument.toList with
  | '-' :: '-' :: option => readLong accepted given option
  | '-' :: c :: options => readShort accepted given (c :: options)
  | _ => given.withValue accepted argument

/-- Arguments after a lone double dash. -/
def readValues (accepted : Accepted) (given : Given) : List String → Option Given
  | [] => some given
  | value :: values =>
      match given.withValue accepted value with
      | .next given => readValues accepted given values
      | _ => none

/-- The outcome of all arguments of a command: refused, a request for help
(`some none`), or what was given. -/
def readArguments (accepted : Accepted) (given : Given) :
    List String → Option (Option Given)
  | [] => some (some given)
  | argument :: arguments =>
      if argument = "--" then (readValues accepted given arguments).map some
      else
        match readArgument accepted given argument with
        | .refused => none
        | .help => some none
        | .next given => readArguments accepted given arguments
        | .awaitingInput given =>
            match arguments with
            | [] => none
            | input :: arguments =>
                if isOption input.toList then none
                else
                  match given.withInput accepted input with
                  | .next given => readArguments accepted given arguments
                  | _ => none

def readCommand (accepted : Accepted) (command : Given → Option Command)
    (arguments : List String) : Option Request :=
  match readArguments accepted {} arguments with
  | none => none
  | some none => some .help
  | some (some given) => (command given).map .run

/-- The one value of a command that takes one. -/
def Given.value? (given : Given) : Option String :=
  given.values.head?

def commandNames : List String :=
  ["render", "tokens", "quote", "ident", "help"]

/-- Reads a whole command line; `none` if it is refused. -/
def readRequest : List String → Option Request
  | [] => none
  | name :: arguments =>
      if name = "render" then
        readCommand { values := 0, input := true } (fun given => some (.render given.input))
          arguments
      else if name = "tokens" then
        readCommand { values := 1, pretty := true }
          (fun given => given.value?.map fun query => .tokens query given.pretty) arguments
      else if name = "quote" then
        readCommand { values := 1 } (fun given => given.value?.map .quote) arguments
      else if name = "ident" then
        readCommand { values := 1 } (fun given => given.value?.map .ident) arguments
      else if name = "help" then
        match arguments with
        | [] => some .help
        | [topic] => if topic ∈ commandNames then some .help else none
        | _ => none
      else if name = "--help" then some .help
      else if name = "--version" then some .version
      else
        match name.toList with
        | '-' :: 'h' :: _ => some .help
        | '-' :: 'V' :: _ => some .version
        | _ => none

end CommandLine
end FilterLang
