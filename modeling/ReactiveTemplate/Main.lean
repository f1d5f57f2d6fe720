import ReactiveTemplate.CommandLine.Outcome

/-!
# The program

Checks and evaluates binding expressions from the command line. The exit code is 1 for
a request that failed, and 2 for arguments that cannot be used.
-/

open ReactiveTemplate.CommandLine

/-- Prints an outcome; the result is the exit code. -/
def printOutcome (outcome : Outcome) : IO UInt32 := do
  for drawing in outcome.drawing do
    IO.eprintln drawing
  IO.print outcome.output
  match outcome.failure with
  | none => return 0
  | some message =>
    IO.eprintln ("Error: " ++ message)
    return 1

/-- Answers the request that the arguments are. -/
def main (arguments : List String) : IO UInt32 :=
  match Request.ofArguments arguments with
  | .ok request => printOutcome request.run
  | .error misuse => do
    IO.eprintln ("error: " ++ misuse.message)
    return 2
