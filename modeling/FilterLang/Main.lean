import FilterLang.CommandLine.Run

/-!
# The program

Reads standard input when a command needs it and standard input is no terminal,
runs the command line and prints what it gives.
-/

open FilterLang.CommandLine in
def main (arguments : List String) : IO UInt32 := do
  let stdin ← IO.getStdin
  let needed :=
    match readRequest arguments with
    | some (.run command) => command.readsInput
    | _ => false
  let content ←
    if needed && !(← stdin.isTty) then some <$> stdin.readBinToEnd else pure none
  let outcome := run arguments fun _ => content
  IO.print outcome.output
  IO.eprint outcome.errors
  return outcome.exitCode.toUInt32
