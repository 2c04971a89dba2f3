import Switching.CommandLine.Run

/-!
The command line as a program: print what a run prints, and end with its exit code.
-/

def main (arguments : List String) : IO UInt32 := do
  match Switching.CommandLine.run arguments with
  | .error f =>
    IO.eprintln f.message
    return 1
  | .ok outcome =>
    IO.print outcome.output
    IO.eprint (outcome.errors.getD Switching.CommandLine.usage)
    return outcome.exitCode.toUInt32
